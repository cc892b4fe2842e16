import Reclaim.Proofs.Toml.Texts
import Reclaim.Config

/-!
# Values of a configuration file are read as they were written

Whole numbers, truth values, texts and lists of texts are read as they were written.  A number is
tried as a date, a time and a number with a fraction first, none of which is made of digits alone.
A list of two and more texts has a line for each, and a comma behind the last.

## Main definitions

* `Toml.Writes` : a value that is read as it was written.

## Main results

* `Toml.integer_digits` : a whole number.
* `Toml.writes_number`, `Toml.writes_switch`, `Toml.writes_text`, `Toml.writes_list` : the values
  of the settings.
-/

namespace Reclaim.Toml

open Reader Text

/-! ### Digits -/

section Digits

variable {n : Nat} {front rest : List Char} {c : Char}

theorem hexValue_digitChar : ∀ n < 10, hexValue (Nat.digitChar n) = n := by
  decide

/-- The digits of a number stand for it. -/
theorem numberOf_digits (n : Nat) : numberOf 10 (Decimal.digits n) = n := by
  induction n using Nat.strong_induction_on with
  | _ n ih =>
    rw [Decimal.digits]
    rcases Nat.lt_or_ge n 10 with hsmall | hlarge
    · rw [Nat.toDigits_of_lt_base hsmall, numberOf, List.foldl_cons, List.foldl_nil,
        hexValue_digitChar n hsmall]
      omega
    · have hfront := ih (n / 10) (by omega)
      rw [Decimal.digits, numberOf] at hfront
      rw [Nat.toDigits_of_base_le (by decide) hlarge, numberOf, List.foldl_append, hfront,
        List.foldl_cons, List.foldl_nil, hexValue_digitChar _ (by omega)]
      omega

theorem isDigit_of_mem_digits (hc : c ∈ Decimal.digits n) : c.isDigit = true :=
  Nat.isDigit_of_mem_toDigits (by decide) (by decide) hc

theorem digits_ne_nil (n : Nat) : Decimal.digits n ≠ [] :=
  Nat.toDigits_ne_nil

/-- A number that is not zero does not begin with a zero. -/
theorem exists_digits_eq_cons (hn : 0 < n) :
    ∃ c more, Decimal.digits n = c :: more ∧ c ≠ '0' := by
  induction n using Nat.strong_induction_on with
  | _ n ih =>
    rw [Decimal.digits]
    rcases Nat.lt_or_ge n 10 with hsmall | hlarge
    · refine ⟨_, [], Nat.toDigits_of_lt_base hsmall, ?_⟩
      interval_cases n <;> decide
    · obtain ⟨c, more, hfront, hc⟩ := ih (n / 10) (by omega) (by omega)
      rw [Decimal.digits] at hfront
      rw [Nat.toDigits_of_base_le (by decide) hlarge, hfront]
      exact ⟨c, _, rfl, hc⟩

theorem digitsOf_append {p : Char → Bool} (hne : front ≠ []) (hfront : ∀ c ∈ front, p c = true)
    (hrest : Stops p rest) (hline : Stops (· == '_') rest) :
    digitsOf p (front ++ rest) = some (front, rest) := by
  obtain ⟨c, front, rfl⟩ := List.exists_cons_of_ne_nil hne
  obtain ⟨hc, hfront⟩ := List.forall_mem_cons.mp hfront
  have hmany : manyFrom (oneOf p <|> do char '_'; oneOf p) (front ++ rest) = (front, rest) := by
    refine manyFrom_append (fun d hd more => orElse_of_some (oneOf_cons (hfront d hd))) ?_
    rw [orElse_of_none (oneOf_of_stops hrest)]
    exact bind_of_none (char_of_stops hline)
  rw [digitsOf, List.cons_append, bind_of_some (oneOf_cons hc)]
  exact bind_of_some (congrArg some hmany)

theorem plainDigits_of_ne (hc : c ≠ '0') (rest : List Char) :
    plainDigits (c :: rest) = digitsOf Char.isDigit (c :: rest) := by
  refine (bind_of_some (peek_cons c rest)).trans (congrFun ?_ _)
  split
  next hzero => exact absurd (Option.some.inj hzero) hc
  next => rfl

/-- The digits of a number are taken as a whole. -/
theorem plainDigits_digits (n : Nat) (hrest : Stops Char.isDigit rest)
    (hline : Stops (· == '_') rest) :
    plainDigits (Decimal.digits n ++ rest) = some (Decimal.digits n, rest) := by
  rcases Nat.eq_zero_or_pos n with rfl | hpos
  · have hzero : Decimal.digits 0 = ['0'] := Nat.toDigits_zero 10
    have htakes : exactCount (· == '0') 1 (['0'] ++ rest) = some (['0'], rest) :=
      exactCount_append rfl (by simp)
    rw [hzero, plainDigits, List.cons_append, bind_of_some (peek_cons _ _)]
    exact htakes
  · have htakes := digitsOf_append (digits_ne_nil n) (fun _ => isDigit_of_mem_digits) hrest hline
    obtain ⟨c, more, hdigits, hc⟩ := exists_digits_eq_cons hpos
    rw [hdigits] at htakes ⊢
    rw [List.cons_append, plainDigits_of_ne hc, ← List.cons_append, htakes]

end Digits

/-! ### Whole numbers -/

section Numbers

variable {n : Nat} {front rest : List Char} {c : Char}

/-- The rest of a line behind a number holds none of its characters. -/
theorem stops_line {p : Char → Bool} (h : p '\n' = false) : Stops p ('\n' :: rest) :=
  stops_cons.mpr h

theorem exists_cons_digits (n : Nat) :
    ∃ c more, Decimal.digits n = c :: more ∧ c.isDigit = true := by
  obtain ⟨c, more, h⟩ := List.exists_cons_of_ne_nil (digits_ne_nil n)
  exact ⟨c, more, h, isDigit_of_mem_digits (h ▸ List.mem_cons_self ..)⟩

theorem sign_of_stops (h : Stops (fun c => c == '+' || c == '-') rest) :
    sign rest = some (false, rest) :=
  bind_of_some (optional_of_none (oneOf_of_stops h))

/-- No sign stands in front of a digit. -/
theorem sign_digits (n : Nat) (rest : List Char) :
    sign (Decimal.digits n ++ rest) = some (false, Decimal.digits n ++ rest) := by
  obtain ⟨c, more, hdigits, hc⟩ := exists_cons_digits n
  refine sign_of_stops ?_
  rw [hdigits, List.cons_append, stops_cons, Bool.or_eq_false_iff]
  exact ⟨beq_of_kind hc (by decide), beq_of_kind hc (by decide)⟩

theorem otherBase_digits (n : Nat) (rest : List Char) :
    otherBase (Decimal.digits n ++ '\n' :: rest) = none := by
  rcases Nat.eq_zero_or_pos n with rfl | hpos
  · have hzero : Decimal.digits 0 = ['0'] := Nat.toDigits_zero 10
    rw [hzero]
    rfl
  · obtain ⟨c, more, hdigits, hc⟩ := exists_digits_eq_cons hpos
    rw [hdigits]
    exact bind_of_none (char_of_ne hc)

/-- A number that fits into 64 bits with a sign is read as it was written. -/
theorem integer_digits (h : n < Nat.pow 2 63) (rest : List Char) :
    integer (Decimal.digits n ++ '\n' :: rest) = some ((n : Int), '\n' :: rest) := by
  rw [integer, orElse_of_none (otherBase_digits n rest), bind_of_some (sign_digits n _),
    bind_of_some (plainDigits_digits n (stops_line (by decide)) (stops_line (by decide))),
    numberOf_digits, if_neg Bool.false_ne_true, fitting, if_pos]
  · rfl
  · exact ⟨by omega, by exact_mod_cast h⟩

theorem float_digits (n : Nat) (rest : List Char) :
    float (Decimal.digits n ++ '\n' :: rest) = none := by
  have hdecimal : decimal (Decimal.digits n ++ '\n' :: rest) = none := by
    rw [decimal, bind_of_some (sign_digits n _),
      bind_of_some (plainDigits_digits n (stops_line (by decide)) (stops_line (by decide)))]
    refine bind_of_none ?_
    rw [orElse_of_none (bind_of_none (char_of_ne (by decide)))]
    exact bind_of_none (bind_of_none (discard_of_none (oneOf_of_stops (stops_line (by decide)))))
  have hspecial : special (Decimal.digits n ++ '\n' :: rest) = none := by
    have hword {d : Char} {word : List Char} (hd : d.isDigit = false) (hline : d ≠ '\n') :
        exactly (d :: word) (Decimal.digits n ++ '\n' :: rest) = none :=
      exactly_of_stops (stops_of_kind (fun _ => isDigit_of_mem_digits) hd
        (stops_cons.mpr (beq_false_of_ne hline.symm)))
    rw [special, bind_of_some (sign_digits n _),
      orElse_of_none (bind_of_none (hword (by decide) (by decide)))]
    exact bind_of_none (hword (by decide) (by decide))
  rw [float, orElse_of_none hdecimal, hspecial]

/-- A number between bounds takes nothing but digits, so that no mark is met behind it. -/
theorem bounded_digits (count low high n : Nat) (rest : List Char) :
    Calendar.bounded count low high (Decimal.digits n ++ '\n' :: rest) = none ∨
      ∃ a chars, Calendar.bounded count low high (Decimal.digits n ++ '\n' :: rest) =
          some (a, chars) ∧
        ∀ d : Char, d.isDigit = false → d ≠ '\n' → char d chars = none := by
  generalize hfront : Decimal.digits n = front
  have hdigits : ∀ c ∈ front, c.isDigit = true := fun c hc =>
    isDigit_of_mem_digits (n := n) (hfront ▸ hc)
  rcases Nat.lt_or_ge front.length count with hfew | hmany
  · exact .inl (bind_of_none (exactCount_of_stops hfew (stops_line (by decide))))
  · have htakes : exactCount Char.isDigit count
        (front.take count ++ (front.drop count ++ '\n' :: rest)) =
          some (front.take count, front.drop count ++ '\n' :: rest) :=
      exactCount_append (List.length_take_of_le hmany) fun c hc =>
        hdigits c (List.mem_of_mem_take hc)
    rw [← List.append_assoc, List.take_append_drop] at htakes
    rw [Calendar.bounded, bind_of_some htakes]
    by_cases hbounds : low ≤ numberOf 10 (front.take count) ∧ numberOf 10 (front.take count) ≤ high
    · rw [if_pos hbounds]
      refine .inr ⟨_, _, rfl, fun d hd hline => char_of_stops ?_⟩
      exact stops_of_kind (fun c hc => hdigits c (List.mem_of_mem_drop hc)) hd
        (stops_cons.mpr (beq_false_of_ne hline.symm))
    · rw [if_neg hbounds]
      exact .inl rfl

/-- Digits alone are no date and no time. -/
theorem moment_digits (n : Nat) (rest : List Char) :
    moment (Decimal.digits n ++ '\n' :: rest) = none := by
  have hdate : Calendar.date (Decimal.digits n ++ '\n' :: rest) = none := by
    rcases bounded_digits 4 0 9999 n rest with hnone | ⟨year, chars, hyear, hmark⟩
    · exact bind_of_none hnone
    · exact (bind_of_some hyear).trans (bind_of_none (hmark '-' (by decide) (by decide)))
  have hhour : Calendar.hourMinute (Decimal.digits n ++ '\n' :: rest) = none := by
    rcases bounded_digits 2 0 23 n rest with hnone | ⟨hour, chars, hour', hmark⟩
    · exact bind_of_none (discard_of_none hnone)
    · exact (bind_of_some (discard_of_some hour')).trans
        (bind_of_none (hmark ':' (by decide) (by decide)))
  have hparts : momentParts (Decimal.digits n ++ '\n' :: rest) = none := by
    rw [momentParts, orElse_of_none (bind_of_none hdate)]
    exact bind_of_none hhour
  rw [moment, hparts]
  rfl

end Numbers

/-! ### Values -/

section Values

variable {depth : Nat} {rest front : List Char} {c : Char}

/-- A value that opens no bracket is a scalar. -/
theorem value_of_stops (hlist : c ≠ '[') (htable : c ≠ '\x7b') (depth : Nat) (rest : List Char) :
    value depth (c :: rest) = scalar (c :: rest) := by
  rw [value.eq_def]
  refine (bind_of_some (peek_cons c rest)).trans (congrFun ?_ _)
  split
  next heq => exact absurd (Option.some.inj heq) hlist
  next heq => exact absurd (Option.some.inj heq) htable
  next => rfl

/-- A text begins with a quote. -/
theorem exists_cons_written (t : String) :
    ∃ c more, (written t).toList = c :: more ∧ (c = '\x22' ∨ c = '\'') := by
  rw [toList_written]
  cases Form.of t.toList with
  | basic => exact ⟨_, _, rfl, .inl rfl⟩
  | literal => exact ⟨_, _, rfl, .inr rfl⟩
  | longBasic => exact ⟨_, _, rfl, .inl rfl⟩
  | longLiteral => exact ⟨_, _, rfl, .inr rfl⟩

theorem value_written (t : String) (depth : Nat) (hdouble : Stops (· == '\x22') rest)
    (hsingle : Stops (· == '\'') rest) :
    value depth ((written t).toList ++ rest) = some (.text t, rest) := by
  have htext := text_written t hdouble hsingle
  obtain ⟨c, more, hwritten, hquote⟩ := exists_cons_written t
  rw [hwritten, List.cons_append] at htext ⊢
  have hc : (c == '\x22' || c == '\'') = true := by
    rcases hquote with rfl | rfl
    · rfl
    · rfl
  rw [value_of_stops (by rintro rfl; revert hc; decide) (by rintro rfl; revert hc; decide), scalar,
    bind_of_some (peek_cons _ _)]
  simp only [hc, if_true]
  exact map_of_some htext

theorem value_digits {n : Nat} (h : n < Nat.pow 2 63) (depth : Nat) (rest : List Char) :
    value depth (Decimal.digits n ++ '\n' :: rest) = some (.integer n, '\n' :: rest) := by
  have hmoment := moment_digits n rest
  have hfloat := float_digits n rest
  have hinteger := integer_digits h rest
  obtain ⟨c, more, hdigits, hc⟩ := exists_cons_digits n
  rw [hdigits, List.cons_append] at hmoment hfloat hinteger ⊢
  have hquote : (c == '\x22' || c == '\'') = false := by
    rw [Bool.or_eq_false_iff]
    exact ⟨beq_of_kind hc (by decide), beq_of_kind hc (by decide)⟩
  rw [value_of_stops (ne_of_kind hc (by decide)) (ne_of_kind hc (by decide)), scalar,
    bind_of_some (peek_cons _ _)]
  simp only [hquote, hc, Bool.true_or, Bool.false_eq_true, if_true, if_false]
  rw [orElse_of_none (map_of_none hmoment), orElse_of_none (map_of_none hfloat)]
  exact map_of_some hinteger

/-- A word is read as a truth value. -/
theorem value_word {word : List Char} {b : Bool} (hc : c = 't' ∨ c = 'f')
    (h : boolean (c :: (word ++ rest)) = some (b, rest)) (depth : Nat) :
    value depth (c :: (word ++ rest)) = some (.boolean b, rest) := by
  have hbranch : c ≠ '[' ∧ c ≠ '\x7b' ∧ (c == '\x22' || c == '\'') = false ∧
      (c.isDigit || c == '+' || c == '-') = false := by
    rcases hc with rfl | rfl
    · decide
    · decide
  obtain ⟨hlist, htable, hquote, hnumber⟩ := hbranch
  rw [value_of_stops hlist htable, scalar, bind_of_some (peek_cons _ _)]
  simp only [hquote, hnumber, Bool.false_eq_true, if_false]
  exact orElse_of_some (map_of_some h)

theorem value_switch (b : Bool) (depth : Nat) (rest : List Char) :
    value depth ((Config.writtenSwitch b).toList ++ rest) = some (.boolean b, rest) := by
  cases b with
  | false =>
    have hfalse : boolean ("false".toList ++ rest) = some (false, rest) :=
      (orElse_of_none (bind_of_none (exactly_of_stops (stops_cons.mpr (by decide))))).trans
        (bind_of_some (exactly_append "false".toList rest))
    have hvalue : value depth ('f' :: (['a', 'l', 's', 'e'] ++ rest)) =
        some (.boolean false, rest) := value_word (.inr rfl) hfalse depth
    exact hvalue
  | true =>
    have htrue : boolean ("true".toList ++ rest) = some (true, rest) :=
      orElse_of_some (bind_of_some (exactly_append "true".toList rest))
    have hvalue : value depth ('t' :: (['r', 'u', 'e'] ++ rest)) =
        some (.boolean true, rest) := value_word (.inl rfl) htrue depth
    exact hvalue

/-! ### Lists -/

/-- What is left out between the values of a list: line breaks, blanks and comments. -/
def isFill (c : Char) : Bool :=
  isSpace c || isBreak c || c == '#'

theorem isSpace_of_stops (h : Stops isFill rest) : Stops isSpace rest := by
  intro c hc
  have hfill := h c hc
  simp only [isFill, Bool.or_eq_false_iff] at hfill
  exact hfill.1.1

theorem spaces_append (hfront : ∀ c ∈ front, isSpace c = true) (hrest : Stops isSpace rest) :
    spaces (front ++ rest) = some (⟨⟩, rest) :=
  discard_of_some (span_append hfront hrest)

theorem spaces_of_stops (h : Stops isSpace rest) : spaces rest = some (⟨⟩, rest) :=
  discard_of_some (span_of_stops h)

theorem comment_of_stops (h : Stops (· == '#') rest) : comment rest = none :=
  bind_of_none (char_of_stops h)

/-- Where neither a comment nor the end of a line is, there is no empty line. -/
theorem emptyLine_of_stops (hfront : ∀ c ∈ front, isSpace c = true) (hrest : Stops isFill rest) :
    emptyLine (front ++ rest) = none := by
  have hbreak : Stops isBreak rest := by
    intro c hc
    have hfill := hrest c hc
    simp only [isFill, Bool.or_eq_false_iff] at hfill
    exact hfill.1.2
  have hcomment : Stops (· == '#') rest := by
    intro c hc
    have hfill := hrest c hc
    simp only [isFill, Bool.or_eq_false_iff] at hfill
    exact hfill.2
  rw [emptyLine, bind_of_some (spaces_append hfront (isSpace_of_stops hrest)),
    bind_of_some (discard_of_some (optional_of_none (comment_of_stops hcomment))),
    newline_of_stops hbreak]

theorem emptyLine_newline (rest : List Char) : emptyLine ('\n' :: rest) = some ((), rest) := by
  rw [emptyLine, bind_of_some (spaces_of_stops (stops_cons.mpr (by decide))),
    bind_of_some (discard_of_some (optional_of_none
      (comment_of_stops (stops_cons.mpr (by decide)))))]
  exact orElse_of_some (exactly_append ['\n'] rest)

theorem filler_eq : filler = (do discard (many emptyLine); spaces) :=
  rfl

theorem filler_of_stops (h : Stops isFill rest) : filler rest = some (⟨⟩, rest) := by
  have hnone : emptyLine ([] ++ rest) = none := emptyLine_of_stops (fun _ h => by cases h) h
  rw [List.nil_append] at hnone
  rw [filler_eq, bind_of_some (discard_of_some (many_of_none hnone))]
  exact spaces_of_stops (isSpace_of_stops h)

/-- A line break and the blanks behind it are left out. -/
theorem filler_newline (hfront : ∀ c ∈ front, isSpace c = true) (hrest : Stops isFill rest) :
    filler ('\n' :: (front ++ rest)) = some (⟨⟩, rest) := by
  have hmany : many emptyLine ('\n' :: (front ++ rest)) = some ([()], front ++ rest) :=
    congrArg some (manyFrom_of_some (emptyLine_newline _) (by simp)
      (manyFrom_of_none (emptyLine_of_stops hfront hrest)))
  rw [filler_eq, bind_of_some (discard_of_some hmany)]
  exact spaces_append hfront (isSpace_of_stops hrest)

/-- A value of a list with what is left out around it. -/
def item (depth : Nat) : Reader Entry := do
  filler
  let item ← value depth
  filler
  return item

theorem stops_isFill_written (t : String) (rest : List Char) :
    Stops isFill ((written t).toList ++ rest) := by
  obtain ⟨c, more, hwritten, rfl | rfl⟩ := exists_cons_written t
  · rw [hwritten]
    exact stops_cons.mpr (by decide)
  · rw [hwritten]
    exact stops_cons.mpr (by decide)

/-- A text is read behind a filler and in front of a comma or a bracket. -/
theorem item_written {chars : List Char} {t : String} (depth : Nat)
    (hfilling : filler chars = some (⟨⟩, (written t).toList ++ c :: rest))
    (hc : c = ',' ∨ c = ']') : item depth chars = some (.text t, c :: rest) := by
  have hstops {p : Char → Bool} (hcomma : p ',' = false) (hbracket : p ']' = false) :
      Stops p (c :: rest) := by
    rcases hc with rfl | rfl
    · exact stops_cons.mpr hcomma
    · exact stops_cons.mpr hbracket
  rw [item, bind_of_some hfilling, bind_of_some (value_written t depth
    (hstops (by decide) (by decide)) (hstops (by decide) (by decide))),
    bind_of_some (filler_of_stops (hstops (by decide) (by decide)))]
  rfl

/-- No value begins with a bracket that closes a list. -/
theorem value_bracket (depth : Nat) (rest : List Char) : value depth (']' :: rest) = none := by
  have hstops {p : Char → Bool} (h : p ']' = false) : Stops p (']' :: rest) := stops_cons.mpr h
  have hboolean : boolean (']' :: rest) = none :=
    (orElse_of_none (bind_of_none (exactly_of_stops (hstops (by decide))))).trans
      (bind_of_none (exactly_of_stops (hstops (by decide))))
  have hspecial : special (']' :: rest) = none := by
    rw [special, bind_of_some (sign_of_stops (hstops (by decide))),
      orElse_of_none (bind_of_none (exactly_of_stops (hstops (by decide))))]
    exact bind_of_none (exactly_of_stops (hstops (by decide)))
  rw [value_of_stops (by decide) (by decide), scalar, bind_of_some (peek_cons _ _)]
  exact (orElse_of_none (map_of_none hboolean)).trans (map_of_none hspecial)

/-- The texts of a list behind the first one, each on a line of its own. -/
def writtenRows : List String → List Char
  | [] => []
  | t :: ts => ',' :: '\n' :: (List.replicate 4 ' ' ++ ((written t).toList ++ writtenRows ts))

theorem toList_join_rows (ts : List String) :
    ',' :: '\n' :: (String.join (ts.map fun t => "    " ++ written t ++ ",\n")).toList =
      writtenRows ts ++ [',', '\n'] := by
  have hindent : "    ".toList = List.replicate 4 ' ' := rfl
  have hcomma : ",\n".toList = [',', '\n'] := rfl
  induction ts with
  | nil => rfl
  | cons t ts ih =>
    rw [List.map_cons, String.join_cons, writtenRows, List.cons_append, List.cons_append,
      List.append_assoc, List.append_assoc, ← ih]
    simp only [String.toList_append, hindent, hcomma, List.append_assoc, List.cons_append,
      List.nil_append]

theorem toList_writtenList_singleton (t : String) :
    (writtenList [t]).toList = '[' :: ((written t).toList ++ [']']) := by
  rw [writtenList, String.toList_append, String.toList_append]
  rfl

theorem toList_writtenList (t t' : String) (ts : List String) :
    (writtenList (t :: t' :: ts)).toList = '[' :: '\n' :: (List.replicate 4 ' ' ++
      ((written t).toList ++ (writtenRows (t' :: ts) ++ [',', '\n', ']']))) := by
  have hrows := toList_join_rows (t :: t' :: ts)
  rw [writtenRows, List.cons_append, List.cons_append] at hrows
  have hopen : "[\n".toList = ['[', '\n'] := rfl
  have hclose : "]".toList = [']'] := rfl
  have hjoin := List.tail_eq_of_cons_eq (List.tail_eq_of_cons_eq hrows)
  have hwritten : writtenList (t :: t' :: ts) = "[\n" ++ String.join ((t :: t' :: ts).map
      fun t => "    " ++ written t ++ ",\n") ++ "]" := rfl
  rw [hwritten, String.toList_append, String.toList_append, hopen, hclose, hjoin]
  simp only [List.append_assoc, List.cons_append, List.nil_append]

/-- The rows of a list are read one by one, and the comma in front of the closing bracket is none of
them. -/
theorem manyFrom_writtenRows (ts : List String) (depth : Nat) (rest : List Char) :
    manyFrom (do discard (char ','); item depth) (writtenRows ts ++ ',' :: '\n' :: ']' :: rest) =
      (ts.map .text, ',' :: '\n' :: ']' :: rest) := by
  induction ts with
  | nil =>
    have hfilling : filler ('\n' :: ([] ++ ']' :: rest)) = some (⟨⟩, ']' :: rest) :=
      filler_newline (fun _ h => by cases h) (stops_cons.mpr (by decide))
    refine manyFrom_of_none ?_
    rw [writtenRows, List.nil_append, bind_of_some (discard_of_some (char_cons _ _)), item]
    exact (bind_of_some hfilling).trans (bind_of_none (value_bracket depth rest))
  | cons t ts ih =>
    -- what follows a row begins with a comma, be it that of the next row or the last one
    obtain ⟨behind, hbehind⟩ : ∃ behind,
        writtenRows ts ++ ',' :: '\n' :: ']' :: rest = ',' :: behind := by
      cases ts with
      | nil => exact ⟨_, rfl⟩
      | cons t ts => exact ⟨_, rfl⟩
    rw [hbehind] at ih
    have hspaces : ∀ c ∈ List.replicate 4 ' ', isSpace c = true := by simp [isSpace]
    have hitem := item_written depth
      (filler_newline hspaces (stops_isFill_written t (',' :: behind))) (.inl rfl)
    have hinput : writtenRows (t :: ts) ++ ',' :: '\n' :: ']' :: rest =
        ',' :: '\n' :: (List.replicate 4 ' ' ++ ((written t).toList ++ ',' :: behind)) := by
      simp only [writtenRows, List.cons_append, List.append_assoc, hbehind]
    rw [hinput]
    refine manyFrom_of_some ((bind_of_some (discard_of_some (char_cons _ _))).trans hitem) ?_ ih
    simp only [List.length_cons, List.length_append]
    omega

theorem separated_of_some {α β : Type} {r : Reader α} {separator : Reader β}
    {chars tail : List Char} {a : α} {as : List α} (h : r chars = some (a, rest))
    (hmany : manyFrom (do discard separator; r) rest = (as, tail)) :
    separated r separator chars = some (a :: as, tail) := by
  rw [separated, bind_of_some h]
  exact bind_of_some (congrArg some hmany)

theorem separated_of_none {α β : Type} {r : Reader α} {separator : Reader β} {chars : List Char}
    (h : r chars = none) : separated r separator chars = none :=
  bind_of_none h

theorem value_noItems {depth : Nat} {chars : List Char} (hnone : item depth chars = none)
    (hfiller : filler chars = some (⟨⟩, ']' :: rest)) :
    value (depth + 1) ('[' :: chars) = some (.array [], rest) := by
  rw [value.eq_def]
  exact (bind_of_some (peek_cons _ _)).trans <| (bind_of_some (char_cons _ _)).trans <|
    (bind_of_some (optional_of_none (separated_of_none hnone))).trans <|
    (bind_of_some hfiller).trans (bind_of_some (char_cons _ _))

/-- A list is its values between brackets, with a comma in front of the closing one or without. -/
theorem value_items {depth : Nat} {chars tail inner : List Char} {items : List Entry}
    (hitems : separated (item depth) (char ',') chars = some (items, tail))
    (hcomma : (discard (optional (char ',')) : Reader PUnit) tail = some (⟨⟩, inner))
    (hfiller : filler inner = some (⟨⟩, ']' :: rest)) :
    value (depth + 1) ('[' :: chars) = some (.array items, rest) := by
  rw [value.eq_def]
  exact (bind_of_some (peek_cons _ _)).trans <| (bind_of_some (char_cons _ _)).trans <|
    (bind_of_some (optional_of_some hitems)).trans <| (bind_of_some hcomma).trans <|
    (bind_of_some hfiller).trans (bind_of_some (char_cons _ _))

theorem value_writtenList (ts : List String) (depth : Nat) (rest : List Char) :
    value (depth + 1) ((writtenList ts).toList ++ rest) = some (.array (ts.map .text), rest) := by
  have hbracket : filler (']' :: rest) = some (⟨⟩, ']' :: rest) :=
    filler_of_stops (stops_cons.mpr (by decide))
  match ts with
  | [] =>
    have hwritten : (writtenList []).toList = ['[', ']'] := rfl
    have hnone : item depth (']' :: rest) = none := by
      rw [item, bind_of_some hbracket]
      exact bind_of_none (value_bracket depth rest)
    rw [hwritten]
    exact value_noItems hnone hbracket
  | [t] =>
    have hitem := item_written depth (filler_of_stops (stops_isFill_written t (']' :: rest)))
      (.inr rfl)
    have hmany : manyFrom (do discard (char ','); item depth) (']' :: rest) = ([], ']' :: rest) :=
      manyFrom_of_none (bind_of_none (discard_of_none (char_of_ne (by decide))))
    have hcomma : (discard (optional (char ',')) : Reader PUnit) (']' :: rest) =
        some (⟨⟩, ']' :: rest) := discard_of_some (optional_of_none (char_of_ne (by decide)))
    rw [toList_writtenList_singleton, List.cons_append, List.append_assoc]
    exact value_items (separated_of_some hitem hmany) hcomma hbracket
  | t :: t' :: ts =>
    have hspaces : ∀ c ∈ List.replicate 4 ' ', isSpace c = true := by simp [isSpace]
    have hitem := item_written depth (filler_newline hspaces (stops_isFill_written t
      (writtenRows (t' :: ts) ++ ',' :: '\n' :: ']' :: rest))) (.inl rfl)
    have hmany := manyFrom_writtenRows (t' :: ts) depth rest
    have hcomma : (discard (optional (char ',')) : Reader PUnit) (',' :: '\n' :: ']' :: rest) =
        some (⟨⟩, '\n' :: ']' :: rest) := discard_of_some (optional_of_some (char_cons _ _))
    have hline : filler ('\n' :: ([] ++ ']' :: rest)) = some (⟨⟩, ']' :: rest) :=
      filler_newline (fun _ h => by cases h) (stops_cons.mpr (by decide))
    rw [toList_writtenList]
    simp only [List.cons_append, List.append_assoc, List.nil_append]
    exact value_items (separated_of_some hitem hmany) hcomma hline

/-- What is written for a value: it is read back in front of the end of its line, and does not
begin with a blank. -/
structure Writes (written : String) (entry : Entry) : Prop where
  start : ∃ c more, written.toList = c :: more ∧ isSpace c = false
  value : ∀ rest, Toml.value depthLimit (written.toList ++ '\n' :: rest) =
    some (entry, '\n' :: rest)

theorem writes_number {n : Nat} (h : n < Nat.pow 2 63) :
    Writes (Decimal.natural n) (.integer n) where
  start := by
    obtain ⟨c, more, hdigits, hc⟩ := exists_cons_digits n
    refine ⟨c, more, by rw [Decimal.natural, String.toList_ofList, hdigits], ?_⟩
    rw [isSpace, Bool.or_eq_false_iff]
    exact ⟨beq_of_kind hc (by decide), beq_of_kind hc (by decide)⟩
  value rest := by
    rw [Decimal.natural, String.toList_ofList]
    exact value_digits h depthLimit rest

theorem writes_switch (b : Bool) : Writes (Config.writtenSwitch b) (.boolean b) where
  start := by
    cases b with
    | false => exact ⟨'f', ['a', 'l', 's', 'e'], rfl, by decide⟩
    | true => exact ⟨'t', ['r', 'u', 'e'], rfl, by decide⟩
  value rest := value_switch b depthLimit _

theorem writes_text (t : String) : Writes (written t) (.text t) where
  start := by
    obtain ⟨c, more, hwritten, rfl | rfl⟩ := exists_cons_written t
    · exact ⟨_, more, hwritten, by decide⟩
    · exact ⟨_, more, hwritten, by decide⟩
  value rest := value_written t depthLimit (stops_line (by decide)) (stops_line (by decide))

theorem writes_list (ts : List String) : Writes (writtenList ts) (.array (ts.map .text)) where
  start := by
    match ts with
    | [] => exact ⟨'[', [']'], rfl, by decide⟩
    | [t] => exact ⟨'[', _, toList_writtenList_singleton t, by decide⟩
    | t :: t' :: ts => exact ⟨'[', _, toList_writtenList t t' ts, by decide⟩
  value rest := value_writtenList ts (depthLimit - 1) _

end Values

end Reclaim.Toml
