import Mathlib
import Reclaim.Text.Reader

/-!
# What readers read

A reader of characters is followed by what it does with the front of a list: it takes a stretch and
leaves the rest, or it fails.  Readers put together are followed part by part, with one rewriting
rule for each way to put them together and each of the two outcomes.  A reader that takes the
longest stretch takes all that was written if the rest does not go on in the same way.

## Main definitions

* `Reader.Stops` : a list does not begin with a character of a kind.
* `Reader.Pieces` : what a repeated reader of pieces reads in all.

## Main results

* `Reader.bind_of_some`, `Reader.orElse_of_none` and the like : readers put together.
* `Reader.span_append`, `Reader.exactCount_append` : stretches of characters.
* `Reader.manyFrom_of_some`, `Reader.manyFrom_of_none` : repetition.
* `Reader.Pieces.cons_of_span` : a stretch is read character by character.
-/

namespace Reclaim.Reader

variable {α β : Type} {r r' : Reader α} {f : α → Reader β} {chars rest tail front : List Char}
  {a : α} {c : Char} {p : Char → Bool}

/-! ### One after the other, and one or the other -/

theorem bind_of_some (h : r chars = some (a, rest)) : (r >>= f) chars = f a rest := by
  simp only [bind, StateT.bind, h]
  rfl

theorem bind_of_none (h : r chars = none) : (r >>= f) chars = none := by
  simp only [bind, StateT.bind, h]
  rfl

theorem map_of_some {g : α → β} (h : r chars = some (a, rest)) :
    (g <$> r) chars = some (g a, rest) := by
  simp only [Functor.map, StateT.map, h]
  rfl

theorem map_of_none {g : α → β} (h : r chars = none) : (g <$> r) chars = none := by
  simp only [Functor.map, StateT.map, h]
  rfl

theorem discard_of_some (h : r chars = some (a, rest)) :
    (discard r : Reader PUnit) chars = some (⟨⟩, rest) :=
  map_of_some h

theorem discard_of_none (h : r chars = none) : (discard r : Reader PUnit) chars = none :=
  map_of_none h

theorem orElse_of_some (h : r chars = some (a, rest)) : (r <|> r') chars = some (a, rest) := by
  have horElse : (r <|> r') chars = (r chars <|> r' chars) := rfl
  rw [horElse, h]
  rfl

theorem orElse_of_none (h : r chars = none) : (r <|> r') chars = r' chars := by
  have horElse : (r <|> r') chars = (r chars <|> r' chars) := rfl
  rw [horElse, h]
  rfl

theorem optional_of_some (h : r chars = some (a, rest)) :
    (optional r) chars = some (some a, rest) :=
  orElse_of_some (map_of_some h)

theorem optional_of_none (h : r chars = none) : (optional r) chars = some (none, chars) :=
  orElse_of_none (map_of_none h)

/-! ### Characters and stretches -/

/-- The list does not begin with a character of a kind. -/
def Stops (p : Char → Bool) (chars : List Char) : Prop :=
  ∀ c ∈ chars.head?, p c = false

theorem stops_nil : Stops p [] :=
  fun _ h => by cases h

theorem stops_cons : Stops p (c :: chars) ↔ p c = false := by
  simp [Stops]

theorem stops_append (h : Stops p front) (hne : front ≠ []) : Stops p (front ++ rest) := by
  obtain ⟨c, front, rfl⟩ := List.exists_cons_of_ne_nil hne
  exact stops_cons.mpr (stops_cons.mp h)

/-- A character of a kind is no character that is not of that kind. -/
theorem ne_of_kind {d : Char} (hc : p c = true) (hd : p d = false) : c ≠ d := by
  rintro rfl
  rw [hc] at hd
  cases hd

theorem beq_of_kind {d : Char} (hc : p c = true) (hd : p d = false) : (c == d) = false :=
  beq_false_of_ne (ne_of_kind hc hd)

theorem stops_of_kind {d : Char} (hfront : ∀ c ∈ front, p c = true) (hd : p d = false)
    (hrest : Stops (· == d) rest) : Stops (· == d) (front ++ rest) := by
  cases front with
  | nil => exact hrest
  | cons c front =>
    exact stops_cons.mpr (beq_of_kind (hfront c (List.mem_cons_self ..)) hd)

theorem peek_cons (c : Char) (rest : List Char) : peek (c :: rest) = some (some c, c :: rest) :=
  rfl

theorem oneOf_cons (h : p c = true) : oneOf p (c :: rest) = some (c, rest) := by
  simp only [oneOf, h, if_true]

theorem oneOf_of_stops (h : Stops p chars) : oneOf p chars = none := by
  cases chars with
  | nil => rfl
  | cons c chars => simp only [oneOf, stops_cons.mp h, Bool.false_eq_true, if_false]

theorem char_cons (c : Char) (rest : List Char) : char c (c :: rest) = some ((), rest) :=
  discard_of_some (oneOf_cons (beq_self_eq_true c))

theorem char_of_stops (h : Stops (· == c) chars) : char c chars = none :=
  discard_of_none (oneOf_of_stops h)

theorem char_of_ne {d : Char} (h : d ≠ c) : char c (d :: rest) = none :=
  char_of_stops (stops_cons.mpr (beq_false_of_ne h))

theorem exactly_append (front rest : List Char) :
    exactly front (front ++ rest) = some ((), rest) := by
  induction front with
  | nil => rfl
  | cons c front ih => rw [exactly, List.cons_append, bind_of_some (char_cons c _), ih]

theorem exactly_of_stops (h : Stops (· == c) chars) : exactly (c :: front) chars = none :=
  bind_of_none (char_of_stops h)

theorem takeWhile_of_stops (h : Stops p chars) : chars.takeWhile p = [] := by
  cases chars with
  | nil => rfl
  | cons c chars => exact List.takeWhile_cons_of_neg (by simp [stops_cons.mp h])

theorem dropWhile_of_stops (h : Stops p chars) : chars.dropWhile p = chars := by
  cases chars with
  | nil => rfl
  | cons c chars => exact List.dropWhile_cons_of_neg (by simp [stops_cons.mp h])

theorem span_append (hfront : ∀ c ∈ front, p c = true) (hrest : Stops p rest) :
    span p (front ++ rest) = some (front, rest) := by
  rw [span, List.takeWhile_append_of_pos hfront, List.dropWhile_append_of_pos hfront,
    takeWhile_of_stops hrest, dropWhile_of_stops hrest, List.append_nil]

theorem span_of_stops (h : Stops p rest) : span p rest = some ([], rest) :=
  show span p ([] ++ rest) = some ([], rest) from span_append (fun _ h => by cases h) h

theorem span1_cons (h : p c = true) (rest : List Char) :
    span1 p (c :: rest) = some (c :: rest.takeWhile p, rest.dropWhile p) :=
  bind_of_some (oneOf_cons h)

theorem span1_append (hfront : ∀ c ∈ front, p c = true) (hne : front ≠ []) (hrest : Stops p rest) :
    span1 p (front ++ rest) = some (front, rest) := by
  obtain ⟨c, front, rfl⟩ := List.exists_cons_of_ne_nil hne
  obtain ⟨hc, hfront⟩ := List.forall_mem_cons.mp hfront
  rw [List.cons_append, span1, bind_of_some (oneOf_cons hc),
    bind_of_some (span_append hfront hrest)]
  rfl

theorem span1_of_stops (h : Stops p chars) : span1 p chars = none :=
  bind_of_none (oneOf_of_stops h)

theorem exactCount_append {n : Nat} (hn : front.length = n) (hfront : ∀ c ∈ front, p c = true) :
    exactCount p n (front ++ rest) = some (front, rest) := by
  subst hn
  induction front with
  | nil => rfl
  | cons c front ih =>
    obtain ⟨hc, hfront⟩ := List.forall_mem_cons.mp hfront
    rw [List.length_cons, exactCount, List.cons_append, bind_of_some (oneOf_cons hc),
      bind_of_some (ih hfront)]
    rfl

theorem exactCount_of_stops {n : Nat} (hn : front.length < n) (hrest : Stops p rest) :
    exactCount p n (front ++ rest) = none := by
  induction front generalizing n with
  | nil =>
    obtain ⟨n, rfl⟩ := Nat.exists_eq_add_one.mpr hn
    exact bind_of_none (oneOf_of_stops hrest)
  | cons c front ih =>
    obtain ⟨n, rfl⟩ := Nat.exists_eq_add_one.mpr (Nat.zero_lt_of_lt hn)
    rw [exactCount, List.cons_append]
    by_cases hc : p c = true
    · rw [bind_of_some (oneOf_cons hc), bind_of_none (ih (Nat.lt_of_succ_lt_succ hn))]
    · exact bind_of_none (oneOf_of_stops (stops_cons.mpr (Bool.not_eq_true _ ▸ hc)))

/-! ### Repetition -/

variable {as : List α}

theorem manyFrom_of_none (h : r chars = none) : manyFrom r chars = ([], chars) := by
  rw [manyFrom, h]

theorem manyFrom_of_some (h : r chars = some (a, rest)) (hless : rest.length < chars.length)
    (hmore : manyFrom r rest = (as, tail)) : manyFrom r chars = (a :: as, tail) := by
  rw [manyFrom, h]
  simp only [dif_pos hless, hmore]

theorem manyFrom_append {r : Reader Char}
    (hreads : ∀ c ∈ front, ∀ rest, r (c :: rest) = some (c, rest)) (hstop : r rest = none) :
    manyFrom r (front ++ rest) = (front, rest) := by
  induction front with
  | nil => exact manyFrom_of_none hstop
  | cons c front ih =>
    obtain ⟨hc, hreads⟩ := List.forall_mem_cons.mp hreads
    exact manyFrom_of_some (hc _) (by simp) (ih hreads)

theorem many_of_none (h : r chars = none) : many r chars = some ([], chars) :=
  congrArg some (manyFrom_of_none h)

/-- What the pieces that a repeated reader takes from the front make together. -/
def Pieces (r : Reader (List α)) (chars : List Char) (content : List α) (tail : List Char) : Prop :=
  ∃ pieces, manyFrom r chars = (pieces, tail) ∧ pieces.flatten = content

section Pieces

variable {r : Reader (List α)} {piece content : List α}

theorem Pieces.stop (h : r chars = none) : Pieces r chars [] chars :=
  ⟨[], manyFrom_of_none h, rfl⟩

theorem Pieces.cons (h : r chars = some (piece, rest)) (hless : rest.length < chars.length)
    (hmore : Pieces r rest content tail) : Pieces r chars (piece ++ content) tail := by
  obtain ⟨pieces, hpieces, rfl⟩ := hmore
  exact ⟨piece :: pieces, manyFrom_of_some h hless hpieces, List.flatten_cons⟩

end Pieces

/-- If stretches are read as a whole, one character in front of what is read makes the first stretch
longer, or is a stretch of its own. -/
theorem Pieces.cons_of_span {r : Reader (List Char)} {content : List Char}
    (hspan : ∀ c rest, p c = true → r (c :: rest) = span1 p (c :: rest)) (hc : p c = true)
    (h : Pieces r chars content tail) : Pieces r (c :: chars) (c :: content) tail := by
  have htakes : r (c :: chars) = some (c :: chars.takeWhile p, chars.dropWhile p) :=
    (hspan c chars hc).trans (span1_cons hc chars)
  have hless : (chars.dropWhile p).length < (c :: chars).length :=
    Nat.lt_succ_of_le (List.dropWhile_suffix p).length_le
  by_cases hfirst : Stops p chars
  · rw [takeWhile_of_stops hfirst, dropWhile_of_stops hfirst] at htakes
    rw [dropWhile_of_stops hfirst] at hless
    exact Pieces.cons htakes hless h
  · have hne : chars ≠ [] := fun hnil => hfirst (hnil ▸ stops_nil)
    obtain ⟨d, rest, rfl⟩ := List.exists_cons_of_ne_nil hne
    have hd : p d = true := by simpa [stops_cons] using hfirst
    -- the stretch that was first gets one character longer
    have hfirst' : r (d :: rest) = some (d :: rest.takeWhile p, rest.dropWhile p) :=
      (hspan d rest hd).trans (span1_cons hd rest)
    have hless' : (rest.dropWhile p).length < (d :: rest).length :=
      Nat.lt_succ_of_le (List.dropWhile_suffix p).length_le
    obtain ⟨pieces, hpieces, rfl⟩ := h
    rw [List.takeWhile_cons_of_pos hd, List.dropWhile_cons_of_pos hd] at htakes
    rw [List.dropWhile_cons_of_pos hd] at hless
    rw [manyFrom_of_some hfirst' hless' rfl] at hpieces
    obtain ⟨rfl, htail⟩ := Prod.mk.inj hpieces
    exact ⟨_, manyFrom_of_some htakes hless (Prod.ext rfl htail), by simp⟩

/-! ### What readers can give -/

/-- Every value that the reader gives has a property. -/
def Gives (r : Reader α) (good : α → Prop) : Prop :=
  ∀ chars a rest, r chars = some (a, rest) → good a

section Gives

variable {good : α → Prop} {good' : β → Prop}

theorem gives_pure (h : good a) : (pure a : Reader α).Gives good := by
  rintro chars a rest ⟨⟩
  exact h

theorem gives_failure : (failure : Reader α).Gives good := by
  rintro chars a rest ⟨⟩

theorem Gives.bind (hr : r.Gives good) (h : ∀ a, good a → (f a).Gives good') :
    (r >>= f).Gives good' := by
  intro chars b rest hb
  cases hread : r chars with
  | none =>
    rw [bind_of_none hread] at hb
    cases hb
  | some found =>
    rw [bind_of_some hread] at hb
    exact h _ (hr _ _ _ hread) _ _ _ hb

theorem gives_any (r : Reader α) : r.Gives fun _ => True :=
  fun _ _ _ _ => trivial

theorem gives_bind (h : ∀ a, (f a).Gives good') : (r >>= f).Gives good' :=
  (gives_any r).bind fun a _ => h a

theorem Gives.map {g : α → β} (hr : r.Gives good) (h : ∀ a, good a → good' (g a)) :
    (g <$> r).Gives good' := by
  intro chars b rest hb
  cases hread : r chars with
  | none =>
    rw [map_of_none hread] at hb
    cases hb
  | some found =>
    rw [map_of_some hread] at hb
    cases hb
    exact h _ (hr _ _ _ hread)

theorem gives_map {g : α → β} (h : ∀ a, good' (g a)) : (g <$> r).Gives good' :=
  (gives_any r).map fun a _ => h a

theorem Gives.orElse (hr : r.Gives good) (hr' : r'.Gives good) : (r <|> r').Gives good := by
  intro chars a rest ha
  cases hread : r chars with
  | none =>
    rw [orElse_of_none hread] at ha
    exact hr' _ _ _ ha
  | some found =>
    rw [orElse_of_some hread] at ha
    cases ha
    exact hr _ _ _ hread

theorem Gives.of_mem_manyFrom (h : r.Gives good) (ha : a ∈ (manyFrom r chars).1) : good a := by
  induction chars using manyFrom.induct r with
  | case1 chars hnone =>
    rw [manyFrom_of_none hnone] at ha
    cases ha
  | case2 chars first rest hread hless _ _ _ ih =>
    rw [manyFrom_of_some hread hless rfl] at ha
    rcases List.mem_cons.mp ha with rfl | ha
    · exact h _ _ _ hread
    · exact ih ha
  | case3 chars first rest hread hless =>
    rw [manyFrom, hread] at ha
    simp only [dif_neg hless] at ha
    cases ha

theorem Gives.many (h : r.Gives good) : (many r).Gives fun as => ∀ a ∈ as, good a := by
  intro chars as rest hmany a ha
  obtain rfl : (manyFrom r chars).1 = as := congrArg Prod.fst (Option.some.inj hmany)
  exact h.of_mem_manyFrom ha

end Gives

end Reclaim.Reader
