import Mathlib
import Reclaim.App.Bundle
import Reclaim.Proofs.Text.Slicing
import Reclaim.Proofs.Text.Trimming

/-!
# What is found behind a key

A descriptor that cannot be read otherwise is searched as a text, which may end anywhere and may
have been decoded from any bytes.  The search looks for three marks one after the other, and cuts
the text at byte offsets that are computed from where the marks were found.  What stands between the
marks need not consist of characters of one byte, and neither need the key; but every cut is at an
end of a mark, so none of them is inside a character, and the search says what it would say if it
went character by character.  That is a grammar: the key counts only where it comes first, its
string has to follow at once, and a value is never empty.

## Main definitions

* `scrapeChars?` : the search character by character.
* `Adjacent`, `Spells` : a text has a value under a key, told by the places of the marks and told by
  what stands between them.

## Main results

* `scrape_eq_ok` : no cut is refused.
* `scrape?_eq_some_iff`, `adjacent_iff_spells` : what is found.
* `scrape_exact` : the search accepts exactly its grammar.
-/

namespace Reclaim.Plist

variable {text key value : String}

/-! ### Bytes and characters -/

/-- The text of the string that comes next, with the cuts made between characters. -/
def nextChars? (chars : List Char) : Option String := do
  let (gap, rest) ← Text.cutAt? "<string>".toList chars
  if gap.any fun c => !Text.isBlank c then none
  let (value, _) ← Text.cutAt? "</string>".toList rest
  let value := Text.trimChars value
  if value = [] then none else return String.ofList value

/-- The text of the string behind a key, with the cuts made between characters. -/
def scrapeChars? (text key : String) : Option String := do
  let (_, behind) ← Text.cutAt? ("<key>" ++ key ++ "</key>").toList text.toList
  nextChars? behind

theorem nextString_eq_ok (chars : List Char) :
    nextString (String.ofList chars) = .ok (nextChars? chars) := by
  simp only [nextString, nextChars?, @Text.findBytes?_eq_map "<string>" _ (by decide),
    @Text.findBytes?_eq_map "</string>" _ (by decide), @String.toList_ofList chars]
  cases hopen : Text.cutAt? "<string>".toList chars with
  | none => rfl
  | some cut =>
    obtain ⟨gap, inner⟩ := cut
    simp only [Option.map_some, Text.slice_before_mark hopen, Text.slice_behind_mark hopen,
      bind, Except.bind, Option.bind_some, @String.toList_ofList inner]
    by_cases hblank : Text.trim (String.ofList gap) = ""
    · have hany : (gap.any fun c => !Text.isBlank c) = false := by
        simpa [Text.trim_eq_empty_iff] using hblank
      simp only [hblank, hany, ne_eq, not_true_eq_false, Bool.false_eq_true, if_false]
      cases hclose : Text.cutAt? "</string>".toList inner with
      | none => rfl
      | some cut =>
        obtain ⟨content, rest⟩ := cut
        simp only [Option.map_some, Option.bind_some, Text.slice_between_marks hopen hclose]
        by_cases hempty : Text.trimChars content = [] <;> simp [Text.trim, hempty] <;> rfl
    · have hany : (gap.any fun c => !Text.isBlank c) = true := by
        simpa [Text.trim_eq_empty_iff] using hblank
      simp only [hblank, hany, ne_eq, not_false_eq_true, if_true]
      rfl

/-- No cut is refused, and the search by bytes finds what the search by characters does. -/
theorem scrape_eq_ok (text key : String) : scrape text key = .ok (scrapeChars? text key) := by
  have hmark : "<key>" ++ key ++ "</key>" ≠ "" := by simp [← String.toList_inj]
  simp only [scrape, scrapeChars?, Text.findBytes?_eq_map hmark]
  cases hkey : Text.cutAt? ("<key>" ++ key ++ "</key>").toList text.toList with
  | none => rfl
  | some cut =>
    obtain ⟨front, behind⟩ := cut
    have hbehind := Text.slice_behind_mark hkey
    rw [String.ofList_toList] at hbehind
    simp only [Option.map_some, hbehind]
    exact nextString_eq_ok behind

theorem scrape?_eq (text key : String) : scrape? text key = scrapeChars? text key := by
  rw [scrape?, scrape_eq_ok]

/-- The key, the value and the blank between the marks have characters of more than one byte. -/
example : scrape "é<key>é</key>\u00a0<string>\u2003ü </string>" "é" = .ok (some "ü") := by
  decide +kernel

/-! ### A text behind a key -/

/-- The text is that of the element right behind the first mark of the key, without the blanks at
its ends, and it is not empty. -/
def Adjacent (text key value : String) : Prop :=
  ∃ front behind gap inner content rest,
    Text.FirstAt ("<key>" ++ key ++ "</key>").toList text.toList front behind ∧
    Text.FirstAt "<string>".toList behind gap inner ∧ (∀ c ∈ gap, Text.isBlank c = true) ∧
    Text.FirstAt "</string>".toList inner content rest ∧
    value = String.ofList (Text.trimChars content) ∧ value ≠ ""

theorem scrape?_eq_some_iff : scrape? text key = some value ↔ Adjacent text key value := by
  simp only [scrape?_eq, Adjacent, ← Text.cutAt?_eq_some_iff]
  constructor
  · intro h
    obtain ⟨⟨front, behind⟩, hkey, h⟩ := Option.bind_eq_some_iff.mp h
    obtain ⟨⟨gap, inner⟩, hopen, h⟩ := Option.bind_eq_some_iff.mp h
    by_cases hblank : gap.any fun c => !Text.isBlank c
    · simp [hblank] at h
    · dsimp only at h
      rw [if_neg hblank] at h
      obtain ⟨⟨content, rest⟩, hclose, h⟩ := Option.bind_eq_some_iff.mp h
      by_cases hempty : Text.trimChars content = []
      · simp [hempty] at h
      · simp only [hempty, if_false] at h
        cases h
        refine ⟨front, behind, gap, inner, content, rest, hkey, hopen, ?_, hclose, rfl, ?_⟩
        · simpa using hblank
        · simpa [← String.toList_eq_nil_iff] using hempty
  · rintro ⟨front, behind, gap, inner, content, rest, hkey, hopen, hblank, hclose, rfl, hne⟩
    have hany : ¬(gap.any fun c => !Text.isBlank c) = true := by simpa using hblank
    have hempty : Text.trimChars content ≠ [] := by simpa [← String.toList_eq_nil_iff] using hne
    simp only [scrapeChars?, nextChars?, hkey, hopen, hclose, Option.bind_eq_bind,
      Option.bind_some]
    simp [hany, hempty]

/-! ### The grammar -/

/-- The text has the value written under the key.  Behind the first mark of the key come blanks and
then a string, which goes up to the first mark of its end; without the blanks at its ends it is the
value, and that is not empty. -/
def Spells (text key value : String) : Prop :=
  ∃ front gap content rest : String,
    text = front ++ ("<key>" ++ key ++ "</key>") ++ gap ++ "<string>" ++ content ++ "</string>" ++
      rest ∧
    (∀ front' rest', text = front' ++ ("<key>" ++ key ++ "</key>") ++ rest' →
      front.length ≤ front'.length) ∧
    (∀ c ∈ gap.toList, Text.isBlank c = true) ∧
    ¬"</string>".toList <:+: content.toList ∧
    Trimmed Text.isBlank content.toList value.toList ∧ value ≠ ""

/-- Blanks are no beginning of a mark, so the mark that follows them is the first. -/
theorem firstAt_string_iff {chars gap inner : List Char}
    (hblank : ∀ c ∈ gap, Text.isBlank c = true) :
    Text.FirstAt "<string>".toList chars gap inner ↔ chars = gap ++ "<string>".toList ++ inner := by
  have hmark : '<' ∉ "string>".toList := by decide
  refine (Text.firstAt_iff hmark).trans (and_iff_left ?_)
  rintro ⟨front, rest, rfl⟩
  have hopening := hblank '<' (by simp)
  cases hopening

theorem firstAt_end_iff {chars content rest : List Char} :
    Text.FirstAt "</string>".toList chars content rest ↔
      chars = content ++ "</string>".toList ++ rest ∧ ¬"</string>".toList <:+: content := by
  have hmark : '<' ∉ "/string>".toList := by decide
  exact Text.firstAt_iff hmark

theorem adjacent_iff_spells : Adjacent text key value ↔ Spells text key value := by
  constructor
  · rintro ⟨front, behind, gap, inner, content, rest, ⟨hkey, hfirst⟩, hopen, hblank, hclose, rfl,
      hne⟩
    rw [firstAt_string_iff hblank] at hopen
    obtain ⟨hclose, hend⟩ := firstAt_end_iff.mp hclose
    refine ⟨String.ofList front, String.ofList gap, String.ofList content, String.ofList rest,
      ?_, ?_, ?_, ?_, ?_, hne⟩
    · rw [← String.toList_inj, hkey, hopen, hclose]
      simp
    · intro front' rest' htext
      have hle := hfirst front'.toList rest'.toList (by simp [htext])
      rwa [String.length_toList, ← @String.length_ofList front] at hle
    · simpa using hblank
    · rwa [@String.toList_ofList content]
    · rw [String.toList_ofList, String.toList_ofList, Text.trimmed_iff_trimChars]
  · rintro ⟨front, gap, content, rest, htext, hfirst, hblank, hend, htrimmed, hne⟩
    refine ⟨front.toList, gap.toList ++ "<string>".toList ++ (content.toList ++
      "</string>".toList ++ rest.toList), gap.toList, content.toList ++ "</string>".toList ++
      rest.toList, content.toList, rest.toList, ⟨?_, ?_⟩, (firstAt_string_iff hblank).mpr rfl,
      hblank, firstAt_end_iff.mpr ⟨rfl, hend⟩, ?_, hne⟩
    · simp [htext]
    · intro front' rest' htext'
      have hle := hfirst (String.ofList front') (String.ofList rest')
        (by rw [← String.toList_inj, htext']; simp)
      rwa [String.length_ofList, ← String.length_toList] at hle
    · rw [← Text.trimmed_iff_trimChars.mp htrimmed, String.ofList_toList]

/-- **What is found behind a key.** Whatever the text and the key are, no piece that is looked at
begins or ends inside a character, so the search comes to an end; and it finds a value exactly if
the text has it written under the key.  The text of a descriptor is one that was decoded from any
bytes, and what is found in the descriptor of a bundle is what its text has written. -/
theorem scrape_exact (key : String) :
    (∀ text, ∃ found, scrape text key = .ok found ∧
      ∀ value, found = some value ↔ Spells text key value) ∧
    ∀ bundle d value, Bundle.scrapedAt? bundle key d = some value ↔
      ∃ data, d.read (Bundle.descriptor bundle) = .ok data ∧
        Spells (Text.decodeLossy data) key value := by
  constructor
  · intro text
    refine ⟨scrapeChars? text key, scrape_eq_ok text key, fun value => ?_⟩
    rw [← scrape?_eq, scrape?_eq_some_iff, adjacent_iff_spells]
  · intro bundle d value
    simp only [← adjacent_iff_spells, ← scrape?_eq_some_iff, Bundle.scrapedAt?,
      Option.bind_eq_bind, Option.bind_eq_some_iff]
    cases d.read (Bundle.descriptor bundle) <;> simp [Except.toOption]

end Reclaim.Plist
