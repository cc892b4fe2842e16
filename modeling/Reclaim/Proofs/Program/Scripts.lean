import Reclaim.Proofs.Authority.Commands
import Reclaim.Proofs.Text.Cutting

/-!
# Commands inside scripts

The consent runner gets a command inside a quoted literal of a script, and runs with administrator
rights what it reads there.  So a command must not be able to end its literal, and must be read as
it was given.  It is written by two replacements one after the other, and together they put a
backslash in front of every backslash and every quote of the command and of nothing else; had the
quotes come first, their backslashes would have been doubled as well.  The reader below is that of
the runner: it knows nothing of how the literal was written.

## Main definitions

* `escapeChar` : a character inside a literal.
* `readLiteral`, `readScript` : what a literal and a script with a literal say.

## Main results

* `escapeForScript_eq_flatMap` : the two replacements in one.
* `readLiteral_escapeForScript` : a literal is read as it was given, whatever is behind it.
* `readScript_consentScript` : a script says the command it was made for.
-/

namespace Reclaim

/-! ### Writing a literal -/

/-- A character inside a literal. -/
def escapeChar (c : Char) : List Char :=
  if c = '\\' ∨ c = '\x22' then ['\\', c] else [c]

/-- The two replacements put a backslash in front of every backslash and every quote. -/
theorem escapeForScript_eq_flatMap (command : List Char) :
    escapeForScript command = command.flatMap escapeChar := by
  rw [escapeForScript, replaceChar, replaceChar, List.flatMap_assoc]
  refine List.flatMap_congr fun c _ => ?_
  by_cases hslash : c = '\\'
  · subst hslash
    decide
  · by_cases hquote : c = '\x22'
    · subst hquote
      decide
    · simp [escapeChar, hslash, hquote]

/-! ### Reading a literal -/

/-- What a literal says and what is behind it.  The literal ends at the first quote that is not
taken by a backslash; a backslash takes the backslash or the quote behind it, and nothing else. -/
def readLiteral : List Char → Option (List Char × List Char)
  | [] => none
  | '\x22' :: behind => some ([], behind)
  | '\\' :: c :: text =>
    if c = '\\' ∨ c = '\x22' then (readLiteral text).map fun (said, behind) => (c :: said, behind)
    else none
  | ['\\'] => none
  | c :: text => (readLiteral text).map fun (said, behind) => (c :: said, behind)

theorem readLiteral_quote (behind : List Char) :
    readLiteral ('\x22' :: behind) = some ([], behind) := by
  rw [readLiteral]

theorem readLiteral_taken {c : Char} (hc : c = '\\' ∨ c = '\x22') (text : List Char) :
    readLiteral ('\\' :: c :: text) =
      (readLiteral text).map fun (said, behind) => (c :: said, behind) := by
  rw [readLiteral, if_pos hc]

theorem readLiteral_plain {c : Char} (hslash : c ≠ '\\') (hquote : c ≠ '\x22')
    (text : List Char) : readLiteral (c :: text) =
      (readLiteral text).map fun (said, behind) => (c :: said, behind) := by
  rw [readLiteral]
  · exact hquote
  · exact fun _ _ h => absurd h hslash
  · exact fun h => absurd h hslash

theorem readLiteral_escapeChar (c : Char) (text : List Char) :
    readLiteral (escapeChar c ++ text) =
      (readLiteral text).map fun (said, behind) => (c :: said, behind) := by
  by_cases hescaped : c = '\\' ∨ c = '\x22'
  · rw [escapeChar, if_pos hescaped]
    exact readLiteral_taken hescaped text
  · rw [escapeChar, if_neg hescaped]
    obtain ⟨hslash, hquote⟩ := not_or.mp hescaped
    exact readLiteral_plain hslash hquote text

/-- A literal is read as it was given, whatever is behind it. -/
theorem readLiteral_escapeForScript (command behind : List Char) :
    readLiteral (escapeForScript command ++ '\x22' :: behind) = some (command, behind) := by
  rw [escapeForScript_eq_flatMap]
  induction command with
  | nil => exact readLiteral_quote behind
  | cons c command ih =>
    rw [List.flatMap_cons, List.append_assoc, readLiteral_escapeChar, ih]
    rfl

/-- Had the quotes been replaced first, a quote would end the literal. -/
example : readLiteral (replaceChar '\\' ['\\', '\\'] (replaceChar '\x22' ['\\', '\x22'] ['\x22'])) =
    some (['\\'], []) := by
  decide +kernel

/-- What is written behind a text does not change the literal in front. -/
theorem readLiteral_append {text said behind : List Char}
    (h : readLiteral text = some (said, behind)) (more : List Char) :
    readLiteral (text ++ more) = some (said, behind ++ more) := by
  induction text using readLiteral.induct generalizing said behind with
  | case1 => cases h
  | case2 text =>
    rw [readLiteral_quote] at h
    cases h
    exact readLiteral_quote _
  | case3 c text hc ih =>
    rw [readLiteral_taken hc, Option.map_eq_some_iff] at h
    obtain ⟨⟨said, behind⟩, hread, ⟨⟩⟩ := h
    rw [List.cons_append, List.cons_append, readLiteral_taken hc, ih hread]
    rfl
  | case4 c text hc =>
    rw [readLiteral, if_neg hc] at h
    cases h
  | case5 => cases h
  | case6 c text hquote hpair hlone ih =>
    have hslash : c ≠ '\\' := by
      intro hslash
      cases text with
      | nil => exact hlone hslash rfl
      | cons c' text => exact hpair c' text hslash rfl
    rw [readLiteral_plain hslash hquote, Option.map_eq_some_iff] at h
    obtain ⟨⟨said, behind⟩, hread, ⟨⟩⟩ := h
    rw [List.cons_append, readLiteral_plain hslash hquote, ih hread]
    rfl

/-- No part of a command ends its literal. -/
theorem readLiteral_eq_none {command part : List Char} (h : part <+: escapeForScript command) :
    readLiteral part = none := by
  rw [Option.eq_none_iff_forall_ne_some]
  rintro ⟨said, behind⟩ hread
  obtain ⟨more, hmore⟩ := h
  have hwhole := readLiteral_append hread (more ++ ['\x22'])
  rw [← List.append_assoc, hmore, readLiteral_escapeForScript, Option.some.injEq,
    Prod.mk.injEq] at hwhole
  exact absurd hwhole.2.symm (by simp)

/-! ### Scripts -/

/-- What a script asks to be run and what is behind its literal. -/
def readScript (script : String) : Option (String × String) := do
  let text ← Text.after? "do shell script \"".toList script.toList
  let (said, behind) ← readLiteral text
  return (String.ofList said, String.ofList behind)

theorem toList_consentScript (command : String) :
    (consentScript command).toList = "do shell script \"".toList ++
      (escapeForScript command.toList ++ '\x22' :: " with administrator privileges".toList) := by
  have hquote : "\" with administrator privileges".toList =
      '\x22' :: " with administrator privileges".toList := by decide
  unfold consentScript
  simp only [String.toList_append, hquote, List.append_assoc,
    @String.toList_ofList (escapeForScript command.toList)]

theorem readScript_consent (command : String) :
    readScript (consentScript command) = some (command, " with administrator privileges") := by
  have hafter := Text.after?_eq_some_iff.mpr (toList_consentScript command)
  simp only [readScript, hafter, Option.bind_eq_bind, Option.bind_some,
    readLiteral_escapeForScript, String.ofList_toList]
  rfl

/-- **A script says the command it was made for.** Whatever a command is, its script is read as a
literal that says exactly this command, followed by the words that ask for administrator rights and
by nothing else.  Scripts of different commands differ, and no part of a command, as it is written,
ends the literal.  The consent runner is given such a script and nothing else. -/
theorem readScript_consentScript (command : String) :
    readScript (consentScript command) = some (command, " with administrator privileges") ∧
      (∀ other, consentScript other = consentScript command → other = command) ∧
      (∀ part, part <+: escapeForScript command.toList → readLiteral part = none) ∧
      ∀ (x : Executor) (m : Machine), m.RanOnly
        (fun call => ∃ script, call.arguments = ["-e", script] ∧
          readScript script = some (command, " with administrator privileges"))
        (x.runWithConsent command m).2 := by
  refine ⟨readScript_consent command, fun other hsame => ?_, fun part => readLiteral_eq_none,
    fun x m => ?_⟩
  · have hother := readScript_consent other
    rw [hsame, readScript_consent command] at hother
    exact (Prod.mk.inj (Option.some.inj hother)).1.symm
  · refine (x.runWithConsent_ranOnly command m).mono ?_
    rintro call rfl
    exact ⟨consentScript command, rfl, readScript_consent command⟩

end Reclaim
