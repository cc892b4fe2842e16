import Reclaim.Proofs.Text.Reading
import Reclaim.Toml.Scalar
import Reclaim.Toml.Written

/-!
# Texts of a configuration file are read as they were written

A text has four forms.  In each of them the characters are written one by one, with or without an
escape, and read in pieces: escapes one by one, and stretches of plain characters as a whole.  In
the forms of several lines one or two quotes in a row belong to the text, and those at its end stand
right in front of the three that close it.

## Main definitions

* `Toml.Token` : how a reader of pieces reads one written character.
* `Toml.Body` : the characters of a text of several lines as they are written.

## Main results

* `Toml.escaped_of_escape?` : an escape is read as its character.
* `Toml.basicText_escapedFrom` : a plain text on one line.
* `Toml.Body.longText` : a text of several lines.
* `Toml.text_written` : every text is read as it was written.
-/

namespace Reclaim.Toml

open Reader Text

/-! ### Escapes -/

/-- A character that stands for itself in a plain text. -/
def isPlain (c : Char) : Bool :=
  isShown c && c != '\x22' && c != '\\'

/-- A character that stands for itself in a verbatim text. -/
def isVerbatim (c : Char) : Bool :=
  isShown c && c != '\''

/-- The character ends a line, or stands in front of the one that does. -/
def isBreak (c : Char) : Bool :=
  c == '\n' || c == '\r'

theorem hexDigit_spec : ∀ n < 16, isHexDigit (Nat.digitChar n).toUpper = true ∧
    hexValue (Nat.digitChar n).toUpper = n := by
  decide

variable {c : Char} {form : Form} {front rest : List Char}

/-- A character below 256 is written by two digits of base 16 behind two zeros. -/
theorem code_eq (h : c.toNat < 256) : code c = ['\\', 'u', '0', '0',
    (Nat.digitChar (c.toNat / 16)).toUpper, (Nat.digitChar (c.toNat % 16)).toUpper] := by
  rw [code]
  rcases Nat.lt_or_ge c.toNat 16 with hsmall | hlarge
  · rw [Nat.toDigits_of_lt_base hsmall, Nat.div_eq_of_lt hsmall, Nat.mod_eq_of_lt hsmall]
    rfl
  · have hdigits := Nat.toDigits_append_toDigits (b := 16) (n := c.toNat / 16)
      (d := c.toNat % 16) (by decide) (by omega) (by omega)
    rw [Nat.div_add_mod, Nat.toDigits_of_lt_base (by omega), Nat.toDigits_of_lt_base (by omega)]
      at hdigits
    rw [← hdigits]
    rfl

/-- The number of a character is read back. -/
theorem escaped_code (h : c.toNat < 256) : escaped (code c ++ rest) = some (c, rest) := by
  obtain ⟨hhigh, hhigh'⟩ := hexDigit_spec (c.toNat / 16) (by omega)
  obtain ⟨hlow, hlow'⟩ := hexDigit_spec (c.toNat % 16) (by omega)
  rw [code_eq h]
  generalize hfront : (Nat.digitChar (c.toNat / 16)).toUpper = high at *
  generalize hback : (Nat.digitChar (c.toNat % 16)).toUpper = low at *
  have hdigits : exactCount isHexDigit 4 (['0', '0', high, low] ++ rest) =
      some (['0', '0', high, low], rest) := by
    have hzero : isHexDigit '0' = true := by decide
    exact exactCount_append rfl (by simp [hhigh, hlow, hzero])
  have hnumber : numberOf 16 ['0', '0', high, low] = c.toNat := by
    have hzero : hexValue '0' = 0 := by decide
    simp only [numberOf, List.foldl_cons, List.foldl_nil, hzero, hhigh', hlow']
    omega
  have hnumbered : charByNumber 4 (['0', '0', high, low] ++ rest) = some (c, rest) := by
    have hvalid : c.toNat.isValidChar := c.valid
    rw [charByNumber, bind_of_some hdigits, hnumber, dif_pos hvalid]
    rfl
  exact hnumbered

/-- A character that has an escape is read from it. -/
theorem escaped_of_escape? (h : escape? form c = some front) :
    escaped (front ++ rest) = some (c, rest) := by
  simp only [escape?] at h
  split_ifs at h with hc hc hc hc _ hc hc hcode
  all_goals cases h
  -- the last case is written by a number, the others by a letter
  on_goal 7 =>
    refine escaped_code ?_
    simp [needsCode] at hcode
    omega
  all_goals
    subst hc
    rfl

/-- An escape is a backslash with a letter, a digit or another backslash behind it. -/
theorem exists_letter_of_escape? (h : escape? form c = some front) :
    ∃ d more, front = '\\' :: d :: more ∧ isSpace d = false ∧ isBreak d = false := by
  simp only [escape?] at h
  split_ifs at h
  all_goals
    cases h
    exact ⟨_, _, rfl, by decide, by decide⟩

/-- What needs no code is shown, a line break aside. -/
theorem isShown_of_not_needsCode (h : needsCode c = false) (hline : c ≠ '\n') :
    isShown c = true := by
  by_cases htab : c = '\t'
  · subst htab
    decide
  · simp [needsCode, htab, hline] at h
    simp [isShown, htab]
    omega

/-- A character without an escape stands for itself. -/
theorem shown_of_escape?_eq_none (h : escape? form c = none) :
    c ≠ '\\' ∧ (isShown c = true ∨ c = '\n' ∧ form.isLong = true) := by
  simp only [escape?] at h
  split_ifs at h with hbackslash _ _ hline hlong _ _ hcode
  · exact ⟨hbackslash, .inr ⟨hline, hlong⟩⟩
  · exact ⟨hbackslash, .inl (isShown_of_not_needsCode (Bool.not_eq_true _ ▸ hcode) hline)⟩

theorem escaped_of_ne (h : c ≠ '\\') : escaped (c :: rest) = none :=
  bind_of_none (char_of_ne h)

theorem escaped_quote : escaped ('\\' :: '\x22' :: rest) = some ('\x22', rest) :=
  rfl

/-! ### Texts on one line -/

/-- The characters of a plain text on one line are read one by one. -/
theorem manyFrom_escapedFrom (chars rest : List Char) :
    manyFrom (escaped <|> oneOf isPlain) (escapedFrom .basic 0 chars ++ '\x22' :: rest) =
      (chars, '\x22' :: rest) := by
  induction chars with
  | nil =>
    refine manyFrom_of_none ?_
    rw [escapedFrom, List.nil_append, orElse_of_none (escaped_of_ne (by decide))]
    exact oneOf_of_stops (stops_cons.mpr (by decide))
  | cons c chars ih =>
    rw [escapedFrom]
    split
    next hquote =>
      subst hquote
      rw [if_neg (show ¬0 < Form.basic.bareQuotes from Nat.lt_irrefl 0)]
      exact manyFrom_of_some (orElse_of_some escaped_quote) (by simp) ih
    next hquote =>
      rw [List.append_assoc]
      cases hescape : escape? .basic c with
      | none =>
        obtain ⟨hbackslash, hshown⟩ := shown_of_escape?_eq_none hescape
        have hplain : isPlain c = true := by
          have hshown := hshown.resolve_right fun h => Bool.false_ne_true h.2
          simp [isPlain, hshown, hquote, hbackslash]
        refine manyFrom_of_some ?_ (by simp) ih
        exact (orElse_of_none (escaped_of_ne hbackslash)).trans (oneOf_cons hplain)
      | some front =>
        refine manyFrom_of_some (orElse_of_some (escaped_of_escape? hescape)) ?_ ih
        obtain ⟨d, more, rfl, -⟩ := exists_letter_of_escape? hescape
        simp only [Option.getD_some, List.length_append, List.length_cons]
        omega

theorem basicText_escapedFrom (chars rest : List Char) :
    basicText ('\x22' :: (escapedFrom .basic 0 chars ++ '\x22' :: rest)) =
      some (String.ofList chars, rest) := by
  have hmany : many (escaped <|> oneOf isPlain) (escapedFrom .basic 0 chars ++ '\x22' :: rest) =
      some (chars, '\x22' :: rest) := congrArg some (manyFrom_escapedFrom chars rest)
  rw [basicText, bind_of_some (char_cons _ _)]
  exact (bind_of_some hmany).trans (bind_of_some (char_cons _ _))

theorem basicText_of_ne (h : c ≠ '\x22') : basicText (c :: rest) = none :=
  bind_of_none (char_of_ne h)

theorem literalText_of_ne (h : c ≠ '\'') : literalText (c :: rest) = none :=
  bind_of_none (char_of_ne h)

theorem literalText_append {chars : List Char} (h : ∀ c ∈ chars, isVerbatim c = true)
    (rest : List Char) :
    literalText ('\'' :: (chars ++ '\'' :: rest)) = some (String.ofList chars, rest) := by
  have hspan : span isVerbatim (chars ++ '\'' :: rest) = some (chars, '\'' :: rest) :=
    span_append h (stops_cons.mpr (by decide))
  rw [literalText, bind_of_some (char_cons _ _)]
  exact (bind_of_some hspan).trans (bind_of_some (char_cons _ _))

/-! ### Texts of several lines -/

theorem newline_of_stops (h : Stops isBreak rest) : newline rest = none := by
  have hstops {d : Char} (hd : isBreak d = true) : Stops (· == d) rest := by
    intro c hc
    have hc' := h c hc
    rw [beq_eq_false_iff_ne]
    rintro rfl
    rw [hd] at hc'
    cases hc'
  exact (orElse_of_none (exactly_of_stops (hstops (by decide)))).trans
    (exactly_of_stops (hstops (by decide)))

/-- A stretch stands for one character wherever a reader of pieces meets it, and cannot be taken for
a quote or a line break. -/
structure Token (r : Reader (List Char)) (quote : Char) (front : List Char) (c : Char) : Prop where
  ne_nil : front ≠ []
  other : Stops (· == quote) front
  sameLine : c ≠ '\n' → Stops isBreak front
  reads : ∀ {chars content tail}, Pieces r chars content tail →
    Pieces r (front ++ chars) (c :: content) tail

/-- A text of several lines as it is written, after `n` quotes in a row: no more than two of them
stand together. -/
inductive Body (r : Reader (List Char)) (quote : Char) : Nat → List Char → List Char → Prop
  | done {n} : Body r quote n [] []
  | token {n front c body content} (token : Token r quote front c)
      (rest : Body r quote 0 body content) : Body r quote n (front ++ body) (c :: content)
  | quote {n body content} (few : n < 2) (rest : Body r quote (n + 1) body content) :
      Body r quote n (quote :: body) (quote :: content)

section Long

variable {piece : Reader (List Char)} {quote : Char} {n : Nat} {body content : List Char}

theorem innerQuotes_replicate (hn : n = 1 ∨ n = 2) (hne : rest ≠ [])
    (hrest : Stops (· == quote) rest) :
    innerQuotes quote (List.replicate n quote ++ rest) = some (List.replicate n quote, rest) := by
  have hquotes : ∀ c ∈ List.replicate n quote, (c == quote) = true := by
    simp +contextual
  have htakes : (exactCount (· == quote) 2 <|> exactCount (· == quote) 1)
      (List.replicate n quote ++ rest) = some (List.replicate n quote, rest) := by
    rcases hn with rfl | rfl
    · rw [orElse_of_none (exactCount_of_stops (by simp) hrest)]
      exact exactCount_append (by simp) hquotes
    · exact orElse_of_some (exactCount_append (by simp) hquotes)
  rw [innerQuotes, bind_of_some htakes]
  obtain ⟨c, rest, rfl⟩ := List.exists_cons_of_ne_nil hne
  rw [bind_of_some (peek_cons c rest)]
  simp only [stops_cons.mp hrest, Bool.false_eq_true, if_false]
  rfl

/-- Three quotes in a row are not inside a text. -/
theorem innerQuotes_of_closing :
    innerQuotes quote (List.replicate (n + 3) quote ++ rest) = none := by
  have hinput : List.replicate (n + 3) quote ++ rest =
      [quote, quote] ++ quote :: (List.replicate n quote ++ rest) := rfl
  have htakes : exactCount (· == quote) 2
      ([quote, quote] ++ quote :: (List.replicate n quote ++ rest)) =
        some ([quote, quote], quote :: (List.replicate n quote ++ rest)) :=
    exactCount_append rfl (by simp)
  rw [hinput, innerQuotes, bind_of_some (orElse_of_some htakes), bind_of_some (peek_cons _ _)]
  simp only [beq_self_eq_true, if_true]
  rfl

theorem closingQuotes_replicate (hn : n ≤ 2) (hrest : Stops (· == quote) rest) :
    closingQuotes quote (List.replicate (n + 3) quote ++ rest) =
      some (List.replicate n quote, rest) := by
  have hspan : span (· == quote) (List.replicate (n + 3) quote ++ rest) =
      some (List.replicate (n + 3) quote, rest) := span_append (by simp +contextual) hrest
  have hlength : 3 ≤ (List.replicate (n + 3) quote).length ∧
      (List.replicate (n + 3) quote).length ≤ 5 := by
    rw [List.length_replicate]
    omega
  rw [closingQuotes, bind_of_some hspan, if_pos hlength, List.drop_replicate, Nat.add_sub_cancel]
  rfl

/-- All of a text is read but the quotes at its end, which stand in front of the closing ones. -/
theorem Body.pieces (h : Body (piece <|> innerQuotes quote) quote n body content) (hn : n ≤ 2)
    (hpiece : ∀ rest, piece (quote :: rest) = none) (rest : List Char) :
    ∃ inner m, m ≤ 2 ∧ inner ++ List.replicate m quote = List.replicate n quote ++ content ∧
      Pieces (piece <|> innerQuotes quote)
        (List.replicate n quote ++ (body ++ (List.replicate 3 quote ++ rest))) inner
        (List.replicate (m + 3) quote ++ rest) := by
  induction h with
  | @done n =>
    refine ⟨[], n, hn, by simp, ?_⟩
    rw [List.nil_append, ← List.append_assoc, List.replicate_append_replicate]
    refine Pieces.stop ?_
    rw [List.replicate_succ, List.cons_append, orElse_of_none (hpiece _), ← List.cons_append,
      ← List.replicate_succ, innerQuotes_of_closing]
  | @quote n body content few _ ih =>
    obtain ⟨inner, m, hm, hinner, hpieces⟩ := ih few
    refine ⟨inner, m, hm, ?_, ?_⟩
    · simpa [List.replicate_succ'] using hinner
    · simpa [List.replicate_succ'] using hpieces
  | @token n front c body content token _ ih =>
    obtain ⟨inner, m, hm, hinner, hpieces⟩ := ih (Nat.zero_le 2)
    rw [List.replicate_zero, List.nil_append] at hinner hpieces
    have hfront := token.reads hpieces
    rw [← List.append_assoc] at hfront
    rcases Nat.eq_zero_or_pos n with rfl | hpos
    · exact ⟨c :: inner, m, hm, by simp [hinner], hfront⟩
    · refine ⟨List.replicate n quote ++ c :: inner, m, hm, by simp [hinner], ?_⟩
      obtain ⟨k, rfl⟩ : ∃ k, n = k + 1 := ⟨n - 1, by omega⟩
      refine Pieces.cons ?_ (by simp) hfront
      rw [List.replicate_succ, List.cons_append, orElse_of_none (hpiece _), ← List.cons_append,
        ← List.replicate_succ]
      exact innerQuotes_replicate (by omega) (by simp [token.ne_nil])
        (by rw [List.append_assoc]; exact stops_append token.other token.ne_nil)

/-- A text without line breaks does not begin with one. -/
theorem Body.stops_isBreak {r : Reader (List Char)} (h : Body r quote n body content)
    (hquote : isBreak quote = false) (hcontent : '\n' ∉ content) :
    Stops isBreak (body ++ (List.replicate 3 quote ++ rest)) := by
  cases h with
  | done => exact stops_cons.mpr hquote
  | quote => exact stops_cons.mpr hquote
  | token token =>
    rw [List.append_assoc]
    refine stops_append (token.sameLine ?_) token.ne_nil
    rintro rfl
    exact hcontent (List.mem_cons_self ..)

/-- A text of several lines is read as it was written, with a line break behind the opening quotes
or with none at all. -/
theorem Body.longText {opening : List Char}
    (h : Body (piece <|> innerQuotes quote) quote 0 body content)
    (hpiece : ∀ rest, piece (quote :: rest) = none) (hquote : isBreak quote = false)
    (hopening : opening = ['\n'] ∨ opening = [] ∧ '\n' ∉ content)
    (hrest : Stops (· == quote) rest) :
    Toml.longText quote piece
        (List.replicate 3 quote ++ (opening ++ (body ++ (List.replicate 3 quote ++ rest)))) =
      some (String.ofList content, rest) := by
  obtain ⟨inner, m, hm, hcontent, pieces, hpieces, rfl⟩ := h.pieces (Nat.zero_le 2) hpiece rest
  rw [List.replicate_zero, List.nil_append] at hcontent hpieces
  have hopen : (discard (optional newline) : Reader PUnit)
      (opening ++ (body ++ (List.replicate 3 quote ++ rest))) =
        some (⟨⟩, body ++ (List.replicate 3 quote ++ rest)) := by
    rcases hopening with rfl | ⟨rfl, hline⟩
    · exact discard_of_some (optional_of_some (orElse_of_some (exactly_append ['\n'] _)))
    · exact discard_of_some (optional_of_none
        (newline_of_stops (h.stops_isBreak hquote hline)))
  have hmany : many (piece <|> innerQuotes quote) (body ++ (List.replicate 3 quote ++ rest)) =
      some (pieces, List.replicate (m + 3) quote ++ rest) := congrArg some hpieces
  rw [Toml.longText]
  exact (bind_of_some (exactly_append [quote, quote, quote] _)).trans <|
    (bind_of_some hopen).trans <| (bind_of_some hmany).trans <|
    (bind_of_some (closingQuotes_replicate hm hrest)).trans (by rw [hcontent]; rfl)

end Long

/-- A stretch of characters that are shown is read as a whole, so each of them is a token. -/
theorem token_of_span {r : Reader (List Char)} {quote : Char} {p : Char → Bool}
    (hspan : ∀ c rest, p c = true → r (c :: rest) = span1 p (c :: rest)) (hc : p c = true)
    (hquote : c ≠ quote) (hline : isBreak c = false) : Token r quote [c] c where
  ne_nil := List.cons_ne_nil c []
  other := stops_cons.mpr (beq_false_of_ne hquote)
  sameLine := fun _ => stops_cons.mpr hline
  reads := fun h => Pieces.cons_of_span hspan hc h

/-- A stretch that is a piece of its own for one character is a token. -/
theorem token_of_piece {r : Reader (List Char)} {quote : Char} (hne : front ≠ [])
    (hreads : ∀ rest, r (front ++ rest) = some ([c], rest)) (hother : Stops (· == quote) front)
    (hline : c ≠ '\n' → Stops isBreak front) : Token r quote front c where
  ne_nil := hne
  other := hother
  sameLine := hline
  reads := fun h => Pieces.cons (hreads _) (by simpa using List.length_pos_of_ne_nil hne) h

/-! ### The two forms of several lines -/

/-- The pieces of a plain text of several lines. -/
def plainPiece : Reader (List Char) :=
  continuation <|> (fun c => [c]) <$> escaped <|> span1 isPlain <|> innerNewline

/-- The pieces of a verbatim text of several lines. -/
def verbatimPiece : Reader (List Char) :=
  span1 isVerbatim <|> innerNewline

theorem continuation_of_ne (h : c ≠ '\\') : continuation (c :: rest) = none :=
  bind_of_none (char_of_ne h)

theorem continuation_of_letter {d : Char} (hspace : isSpace d = false)
    (hbreak : isBreak d = false) : continuation ('\\' :: d :: rest) = none := by
  have hspaces : spaces (d :: rest) = some (⟨⟩, d :: rest) :=
    discard_of_some (span_of_stops (stops_cons.mpr hspace))
  rw [continuation, bind_of_some (char_cons _ _), bind_of_some hspaces]
  exact bind_of_none (newline_of_stops (stops_cons.mpr hbreak))

theorem isBreak_of_isShown (h : isShown c = true) : isBreak c = false := by
  rw [isBreak, Bool.or_eq_false_iff, beq_eq_false_iff_ne, beq_eq_false_iff_ne]
  constructor
  · rintro rfl
    revert h
    decide
  · rintro rfl
    revert h
    decide

theorem plainPiece_of_isPlain (h : isPlain c = true) (rest : List Char) :
    plainPiece (c :: rest) = span1 isPlain (c :: rest) := by
  have hne : c ≠ '\\' := by
    rintro rfl
    revert h
    decide
  rw [plainPiece, orElse_of_none (continuation_of_ne hne),
    orElse_of_none (map_of_none (escaped_of_ne hne)), span1_cons h,
    orElse_of_some (span1_cons h rest)]

/-- An escape in a text of several lines is a piece of its own. -/
theorem plainPiece_of_letter {d : Char} (hspace : isSpace d = false) (hbreak : isBreak d = false)
    (h : escaped ('\\' :: d :: front) = some (c, rest)) :
    plainPiece ('\\' :: d :: front) = some ([c], rest) := by
  rw [plainPiece, orElse_of_none (continuation_of_letter hspace hbreak)]
  exact orElse_of_some (map_of_some h)

theorem plainPiece_of_not_isPlain (hne : c ≠ '\\') (h : isPlain c = false) (rest : List Char) :
    plainPiece (c :: rest) = innerNewline (c :: rest) := by
  rw [plainPiece, orElse_of_none (continuation_of_ne hne),
    orElse_of_none (map_of_none (escaped_of_ne hne)),
    orElse_of_none (span1_of_stops (stops_cons.mpr h))]

theorem innerNewline_of_stops (h : Stops isBreak rest) : innerNewline rest = none :=
  bind_of_none (newline_of_stops h)

theorem innerNewline_cons (rest : List Char) : innerNewline ('\n' :: rest) = some (['\n'], rest) :=
  bind_of_some (orElse_of_some (exactly_append ['\n'] rest))

/-- Each character of a plain text of several lines is a token, with its escape if it has one. -/
theorem token_escape? (hquote : c ≠ '\x22') :
    Token (plainPiece <|> innerQuotes '\x22') '\x22' ((escape? .longBasic c).getD [c]) c := by
  cases hescape : escape? .longBasic c with
  | some front =>
    obtain ⟨d, more, rfl, hspace, hbreak⟩ := exists_letter_of_escape? hescape
    exact token_of_piece (List.cons_ne_nil _ _)
      (fun rest => orElse_of_some (plainPiece_of_letter hspace hbreak (escaped_of_escape? hescape)))
      (stops_cons.mpr (by decide)) (fun _ => stops_cons.mpr (by decide))
  | none =>
    obtain ⟨hbackslash, hshown | ⟨rfl, -⟩⟩ := shown_of_escape?_eq_none hescape
    · have hplain : isPlain c = true := by simp [isPlain, hshown, hquote, hbackslash]
      refine token_of_span (fun c rest hc => ?_) hplain hquote (isBreak_of_isShown hshown)
      rw [orElse_of_some ((plainPiece_of_isPlain hc rest).trans (span1_cons hc rest)),
        span1_cons hc]
    · refine token_of_piece (List.cons_ne_nil _ _) (fun rest => orElse_of_some ?_)
        (stops_cons.mpr (by decide)) (fun hne => absurd rfl hne)
      exact (plainPiece_of_not_isPlain (by decide) (by decide) rest).trans (innerNewline_cons rest)

/-- What is written between three double quotes. -/
theorem body_escapedFrom {n : Nat} (hn : n ≤ 2) (chars : List Char) :
    Body (plainPiece <|> innerQuotes '\x22') '\x22' n (escapedFrom .longBasic n chars) chars := by
  induction chars generalizing n with
  | nil => exact .done
  | cons c chars ih =>
    rw [escapedFrom]
    split
    next hquote =>
      subst hquote
      split
      next hfew => exact .quote hfew (ih hfew)
      next =>
        have htoken : Token (plainPiece <|> innerQuotes '\x22') '\x22' ['\\', '\x22'] '\x22' :=
          token_of_piece (List.cons_ne_nil _ _)
            (fun rest => orElse_of_some
              (plainPiece_of_letter (by decide) (by decide) escaped_quote))
            (stops_cons.mpr (by decide)) (fun _ => stops_cons.mpr (by decide))
        exact .token htoken (ih (Nat.zero_le 2))
    next hquote => exact .token (token_escape? hquote) (ih (Nat.zero_le 2))

theorem longBasicText_escapedFrom {opening : List Char} (chars : List Char)
    (hopening : opening = ['\n'] ∨ opening = [] ∧ '\n' ∉ chars)
    (hrest : Stops (· == '\x22') rest) :
    longBasicText (List.replicate 3 '\x22' ++ (opening ++ (escapedFrom .longBasic 0 chars ++
      (List.replicate 3 '\x22' ++ rest)))) = some (String.ofList chars, rest) := by
  have hpiece (rest : List Char) : plainPiece ('\x22' :: rest) = none :=
    (plainPiece_of_not_isPlain (by decide) (by decide) rest).trans
      (innerNewline_of_stops (stops_cons.mpr (by decide)))
  exact (body_escapedFrom (Nat.zero_le 2) chars).longText hpiece (by decide) hopening hrest

theorem verbatimPiece_of_isVerbatim (h : isVerbatim c = true) (rest : List Char) :
    verbatimPiece (c :: rest) = span1 isVerbatim (c :: rest) := by
  rw [verbatimPiece, span1_cons h, orElse_of_some (span1_cons h rest)]

theorem verbatimPiece_of_not_isVerbatim (h : isVerbatim c = false) (rest : List Char) :
    verbatimPiece (c :: rest) = innerNewline (c :: rest) := by
  rw [verbatimPiece, orElse_of_none (span1_of_stops (stops_cons.mpr h))]

/-! ### Runs of a character -/

/-- One more character of a run is counted. -/
def countRun (c : Char) (count : Nat × Nat) (d : Char) : Nat × Nat :=
  let run := if d = c then count.1 + 1 else 0
  (run, max count.2 run)

theorem longestRun_eq (c : Char) (chars : List Char) :
    longestRun c chars = (chars.foldl (countRun c) (0, 0)).2 :=
  rfl

theorem le_longest (c : Char) (count : Nat × Nat) (chars : List Char) :
    count.2 ≤ (chars.foldl (countRun c) count).2 := by
  induction chars generalizing count with
  | nil => exact Nat.le_refl _
  | cons d chars ih => exact (Nat.le_max_left _ _).trans (ih (countRun c count d))

theorem not_mem_of_longest_eq_zero {count : Nat × Nat} {chars : List Char}
    (h : (chars.foldl (countRun c) count).2 = 0) : c ∉ chars := by
  induction chars generalizing count with
  | nil => exact List.not_mem_nil
  | cons d chars ih =>
    rw [List.mem_cons, not_or]
    refine ⟨?_, ih h⟩
    rintro rfl
    have hcounted := le_longest c (countRun c count c) chars
    have hone : 1 ≤ (countRun c count c).2 := by simp [countRun]
    rw [List.foldl_cons] at h
    omega

/-- Each character of a verbatim text of several lines is a token. -/
theorem token_verbatim (hcode : needsCode c = false) (hquote : c ≠ '\'') :
    Token (verbatimPiece <|> innerQuotes '\'') '\'' [c] c := by
  by_cases hline : c = '\n'
  · subst hline
    refine token_of_piece (List.cons_ne_nil _ _) (fun rest => orElse_of_some ?_)
      (stops_cons.mpr (by decide)) (fun hne => absurd rfl hne)
    exact (verbatimPiece_of_not_isVerbatim (by decide) rest).trans (innerNewline_cons rest)
  · have hshown := isShown_of_not_needsCode hcode hline
    have hverbatim : isVerbatim c = true := by simp [isVerbatim, hshown, hquote]
    refine token_of_span (fun c rest hc => ?_) hverbatim hquote (isBreak_of_isShown hshown)
    rw [orElse_of_some ((verbatimPiece_of_isVerbatim hc rest).trans (span1_cons hc rest)),
      span1_cons hc]

/-- What is written between three single quotes. -/
theorem body_verbatim {n longest : Nat} {chars : List Char}
    (hruns : (chars.foldl (countRun '\'') (n, longest)).2 ≤ 2)
    (hcodes : ∀ c ∈ chars, needsCode c = false) :
    Body (verbatimPiece <|> innerQuotes '\'') '\'' n chars chars := by
  induction chars generalizing n longest with
  | nil => exact .done
  | cons c chars ih =>
    obtain ⟨hcode, hcodes'⟩ := List.forall_mem_cons.mp hcodes
    rw [List.foldl_cons] at hruns
    by_cases hquote : c = '\''
    · subst hquote
      have hcount : countRun '\'' (n, longest) '\'' = (n + 1, max longest (n + 1)) := rfl
      rw [hcount] at hruns
      have hfew := (le_longest '\'' (n + 1, max longest (n + 1)) chars).trans hruns
      exact .quote (by omega) (ih hruns hcodes')
    · have hcount : countRun '\'' (n, longest) c = (0, longest) := by
        simp [countRun, hquote]
      rw [hcount] at hruns
      exact .token (token_verbatim hcode hquote) (ih hruns hcodes')

theorem longLiteralText_verbatim {opening chars : List Char}
    (hruns : longestRun '\'' chars ≤ 2) (hcodes : ∀ c ∈ chars, needsCode c = false)
    (hopening : opening = ['\n'] ∨ opening = [] ∧ '\n' ∉ chars)
    (hrest : Stops (· == '\'') rest) :
    longLiteralText (List.replicate 3 '\'' ++ (opening ++ (chars ++
      (List.replicate 3 '\'' ++ rest)))) = some (String.ofList chars, rest) := by
  have hpiece (rest : List Char) : verbatimPiece ('\'' :: rest) = none :=
    (verbatimPiece_of_not_isVerbatim (by decide) rest).trans
      (innerNewline_of_stops (stops_cons.mpr (by decide)))
  rw [longestRun_eq] at hruns
  exact (body_verbatim hruns hcodes).longText hpiece (by decide) hopening hrest

/-! ### The form of a text -/

/-- A text in single quotes holds neither a quote nor a line break, and it is not empty. -/
theorem Form.of_eq_literal {chars : List Char} (h : Form.of chars = .literal) :
    chars ≠ [] ∧ '\'' ∉ chars ∧ '\n' ∉ chars ∧ ∀ c ∈ chars, needsCode c = false := by
  simp only [Form.of] at h
  split_ifs at h with hcodes _ hbasic hliteral
  obtain ⟨hsingle, hline⟩ := hliteral
  rw [longestRun_eq] at hsingle
  refine ⟨?_, not_mem_of_longest_eq_zero hsingle, by simpa using hline, by simpa using hcodes⟩
  rintro rfl
  exact hbasic ⟨rfl, rfl, rfl⟩

/-- A text in three single quotes holds no more than two of them in a row. -/
theorem Form.of_eq_longLiteral {chars : List Char} (h : Form.of chars = .longLiteral) :
    longestRun '\'' chars ≤ 2 ∧ ∀ c ∈ chars, needsCode c = false := by
  simp only [Form.of] at h
  split_ifs at h with hcodes _ _ _ _ hsingle
  exact ⟨hsingle, by simpa using hcodes⟩

/-- What stands behind the opening quotes. -/
def Form.opening (form : Form) (chars : List Char) : List Char :=
  if form.isLong ∧ chars.contains '\n' then ['\n'] else []

theorem Form.opening_cases (form : Form) (hlong : form.isLong = true) (chars : List Char) :
    form.opening chars = ['\n'] ∨ form.opening chars = [] ∧ '\n' ∉ chars := by
  rw [opening]
  by_cases hline : '\n' ∈ chars
  · exact .inl (if_pos ⟨hlong, by simpa using hline⟩)
  · exact .inr ⟨if_neg fun h => hline (by simpa using h.2), hline⟩

theorem toList_written (t : String) :
    (written t).toList = (Form.of t.toList).delimiter.toList ++
      ((Form.of t.toList).opening t.toList ++
        ((if (Form.of t.toList).hasEscapes then escapedFrom (Form.of t.toList) 0 t.toList
          else t.toList) ++ (Form.of t.toList).delimiter.toList)) := by
  have hopening (form : Form) (chars : List Char) :
      (if form.isLong ∧ chars.contains '\n' then "\n" else "").toList = form.opening chars := by
    rw [Form.opening]
    split
    · rfl
    · rfl
  simp only [written, String.toList_append, String.toList_ofList, hopening, List.append_assoc]

/-! A text of several lines begins with three quotes, which no text on one line does. -/

theorem longText_of_stops {piece : Reader (List Char)} {quote : Char}
    (h : Stops (· == quote) rest) : longText quote piece rest = none :=
  bind_of_none (exactly_of_stops h)

theorem longText_of_one {piece : Reader (List Char)} {quote : Char}
    (h : Stops (· == quote) rest) : longText quote piece (quote :: rest) = none := by
  refine bind_of_none ?_
  rw [exactly, bind_of_some (char_cons _ _)]
  exact exactly_of_stops h

theorem longText_of_two {piece : Reader (List Char)} {quote : Char}
    (h : Stops (· == quote) rest) : longText quote piece (quote :: quote :: rest) = none := by
  refine bind_of_none ?_
  rw [exactly, bind_of_some (char_cons _ _), exactly, bind_of_some (char_cons _ _)]
  exact exactly_of_stops h

theorem stops_escapedFrom (c : Char) (chars rest : List Char) :
    Stops (· == '\x22') (escapedFrom .basic 0 (c :: chars) ++ rest) := by
  rw [escapedFrom]
  split
  next => exact stops_cons.mpr (by decide)
  next hquote =>
    cases hescape : escape? .basic c with
    | none => exact stops_cons.mpr (beq_false_of_ne hquote)
    | some front =>
      obtain ⟨d, more, rfl, -⟩ := exists_letter_of_escape? hescape
      exact stops_cons.mpr (by decide)

theorem longBasicText_of_basic (chars : List Char) (hrest : Stops (· == '\x22') rest) :
    longBasicText ('\x22' :: (escapedFrom .basic 0 chars ++ '\x22' :: rest)) = none := by
  cases chars with
  | nil => exact longText_of_two hrest
  | cons c chars => exact longText_of_one (stops_escapedFrom c chars _)

/-- **Every text is read as it was written**, in front of anything that does not begin with a
quote. -/
theorem text_written (t : String) (hdouble : Stops (· == '\x22') rest)
    (hsingle : Stops (· == '\'') rest) :
    text ((written t).toList ++ rest) = some (t, rest) := by
  have htext : some (String.ofList t.toList, rest) = some (t, rest) := by
    rw [String.ofList_toList]
  rw [toList_written, ← htext]
  simp only [List.append_assoc]
  generalize t.toList = chars
  have hopening {chars : List Char} : longBasicText ('\'' :: chars) = none :=
    longText_of_stops (stops_cons.mpr (by decide))
  cases hform : Form.of chars with
  | basic =>
    have hnotLong : longLiteralText ('\x22' :: (escapedFrom .basic 0 chars ++ '\x22' :: rest)) =
        none := longText_of_stops (stops_cons.mpr (by decide))
    exact (orElse_of_none (longBasicText_of_basic chars hdouble)).trans <|
      (orElse_of_none hnotLong).trans (orElse_of_some (basicText_escapedFrom chars rest))
  | literal =>
    obtain ⟨hne, hquote, hline, hcodes⟩ := Form.of_eq_literal hform
    have hverbatim : ∀ c ∈ chars, isVerbatim c = true := by
      intro c hc
      have hshown := isShown_of_not_needsCode (hcodes c hc) (by rintro rfl; exact hline hc)
      have hquote' : c ≠ '\'' := by rintro rfl; exact hquote hc
      simp [isVerbatim, hshown, hquote']
    have hnotLong : longLiteralText ('\'' :: (chars ++ '\'' :: rest)) = none := by
      obtain ⟨c, chars, rfl⟩ := List.exists_cons_of_ne_nil hne
      refine longText_of_one (stops_cons.mpr (beq_false_of_ne ?_))
      rintro rfl
      exact hquote (List.mem_cons_self ..)
    exact (orElse_of_none hopening).trans <| (orElse_of_none hnotLong).trans <|
      (orElse_of_none (basicText_of_ne (by decide))).trans (literalText_append hverbatim rest)
  | longBasic =>
    exact orElse_of_some (longBasicText_escapedFrom chars
      (Form.opening_cases .longBasic rfl chars) hdouble)
  | longLiteral =>
    obtain ⟨hruns, hcodes⟩ := Form.of_eq_longLiteral hform
    exact (orElse_of_none hopening).trans <| orElse_of_some (longLiteralText_verbatim hruns hcodes
      (Form.opening_cases .longLiteral rfl chars) hsingle)

end Reclaim.Toml
