import LuaBytecode.Json.Token
import LuaBytecode.Json.Value

/-!
# Scanning text piece by piece

What follows a piece of text matters to the scanner only behind a word, which
goes on until a character that cannot be part of it.

**Results.**
* `Scanner.scanFrom_word`, `scanFrom_quoted`, `scanFrom_blanks`: one token, or none.
* `Numeral.wordToken?_of_ofText?`: each numeral is a word.
-/

namespace LuaBytecode
namespace Json

/-- A code unit below the surrogates stands for a character. -/
theorem PartialString.pushUnit_of_lt
    (text : PartialString)
    {unit : Nat}
    (h : unit < 0xD800) :
    text.pushUnit unit = text.push (Char.ofNat unit) := by
  have htrailing : isTrailing unit = false := by
    rw [isTrailing, Bool.and_eq_false_imp, decide_eq_true_eq]
    omega
  have hleading : isLeading unit = false := by
    rw [isLeading, Bool.and_eq_false_imp, decide_eq_true_eq]
    omega
  rw [pushUnit, htrailing, hleading]
  rfl

namespace Scanner

/-- The tokens of a text of which a scanner has seen the beginning. -/
def scanFrom
    (scanner : Scanner)
    (text : List Char) : Option (List Token) := do
  let scanner ← text.foldlM step scanner
  scanner.finish

/-- Where a word may end: at the end of the text, or before a character that is no part of it. -/
def Ends
    (rest : List Char) : Prop :=
  ∀ char ∈ rest.head?, endsWord char = true

theorem ends_nil :
    Ends [] := by
  intro char h
  cases h

theorem ends_cons
    {char : Char}
    {rest : List Char} :
    Ends (char :: rest) ↔ endsWord char = true := by
  simp [Ends]

variable {before : List Token} {rest : List Char}

theorem scanFrom_cons
    (scanner : Scanner)
    (char : Char)
    (rest : List Char) :
    scanner.scanFrom (char :: rest) =
      (scanner.step char).bind fun next => next.scanFrom rest := by
  rw [scanFrom, List.foldlM_cons, bind_assoc]
  rfl

theorem scanFrom_between
    (before : List Token)
    (char : Char)
    (rest : List Char) :
    scanFrom ⟨.between, before⟩ (char :: rest) = (between before char).scanFrom rest := by
  rw [scanFrom_cons]
  rfl

theorem scanFrom_nil
    (scanner : Scanner) :
    scanner.scanFrom [] = scanner.finish := rfl

/-! ## Blanks and marks -/

/-- Blanks between tokens are passed over. -/
theorem scanFrom_blanks
    {blanks : List Char}
    (h : ∀ char ∈ blanks, isBlank char = true) :
    scanFrom ⟨.between, before⟩ (blanks ++ rest) = scanFrom ⟨.between, before⟩ rest := by
  induction blanks with
  | nil =>
      rfl
  | cons char blanks ih =>
      have hchar : between before char = ⟨.between, before⟩ := by
        rw [between, if_pos (h char List.mem_cons_self)]
      rw [List.cons_append, scanFrom_between, hchar,
        ih fun other hother => h other (List.mem_cons_of_mem _ hother)]

/-- A word may end before blanks, and behind them if there are none. -/
theorem ends_blanks
    {blanks : List Char}
    (h : ∀ char ∈ blanks, isBlank char = true)
    (hrest : Ends rest) :
    Ends (blanks ++ rest) := by
  cases blanks with
  | nil =>
      exact hrest
  | cons char blanks =>
      exact ends_cons.2 (by simp [endsWord, h char List.mem_cons_self])

/-- A mark is a token of its own. -/
theorem scanFrom_mark
    {char : Char}
    {token : Token}
    (h : markToken? char = some token) :
    scanFrom ⟨.between, before⟩ (char :: rest) = scanFrom ⟨.between, token :: before⟩ rest := by
  have hblank : isBlank char = false := by
    unfold markToken? at h
    split at h <;> simp_all [isBlank]
  have hquote : char ≠ '"' := by
    rintro rfl
    simp [markToken?] at h
  rw [scanFrom_between, between, if_neg (by simp [hblank]), if_neg hquote]
  simp only [h]

theorem scanFrom_markText
    (mark : String)
    {char : Char}
    {token : Token}
    (hmark : mark.toList = [char])
    (h : markToken? char = some token) :
    scanFrom ⟨.between, before⟩ (mark.toList ++ rest) =
      scanFrom ⟨.between, token :: before⟩ rest := by
  rw [hmark]
  exact scanFrom_mark h

/-! ## Words -/

/-- A word goes on to the first character that ends it. -/
theorem scanFrom_inWord
    {word : List Char}
    (h : ∀ char ∈ word, endsWord char = false) :
    ∀ reversed, scanFrom ⟨.word reversed, before⟩ (word ++ rest) =
      scanFrom ⟨.word (word.reverse ++ reversed), before⟩ rest := by
  induction word with
  | nil =>
      exact fun _ => rfl
  | cons char word ih =>
      intro reversed
      have hstep : step ⟨.word reversed, before⟩ char =
          some ⟨.word (char :: reversed), before⟩ := by
        simp [step, h char List.mem_cons_self]
      rw [List.cons_append, scanFrom_cons, hstep, Option.bind_some,
        ih fun other hother => h other (List.mem_cons_of_mem _ hother)]
      simp

/-- A word becomes a token where it ends. -/
theorem scanFrom_endOfWord
    {reversed : List Char}
    {token : Token}
    (h : wordToken? reversed.reverse = some token)
    (hrest : Ends rest) :
    scanFrom ⟨.word reversed, before⟩ rest = scanFrom ⟨.between, token :: before⟩ rest := by
  cases rest with
  | nil =>
      simp [scanFrom_nil, finish, h]
  | cons char rest =>
      have hstep : step ⟨.word reversed, before⟩ char = some (between (token :: before) char) := by
        simp [step, ends_cons.1 hrest, h]
      rw [scanFrom_cons, hstep, scanFrom_between]
      rfl

/-- A whole word is one token. -/
theorem scanFrom_word
    {word : List Char}
    {token : Token}
    (htoken : wordToken? word = some token)
    (hword : ∀ char ∈ word, endsWord char = false)
    (hne : word ≠ [])
    (hrest : Ends rest) :
    scanFrom ⟨.between, before⟩ (word ++ rest) = scanFrom ⟨.between, token :: before⟩ rest := by
  cases word with
  | nil =>
      exact absurd rfl hne
  | cons char word =>
      have hfirst := hword char List.mem_cons_self
      simp only [endsWord, Bool.or_eq_false_iff, decide_eq_false_iff_not,
        Option.isSome_eq_false_iff, Option.isNone_iff_eq_none] at hfirst
      have hbetween : between before char = ⟨.word [char], before⟩ := by
        simp [between, hfirst]
      rw [List.cons_append, scanFrom_between, hbetween,
        scanFrom_inWord fun other hother => hword other (List.mem_cons_of_mem _ hother)]
      exact scanFrom_endOfWord (by simpa using htoken) hrest

/-! ## Strings -/

theorem hexValue?_digitChar :
    ∀ digit < 16, hexValue? (Nat.digitChar digit) = some digit := by
  decide

theorem scanFrom_hexDigit
    (text : PartialString)
    (missing value : Nat)
    {digit : Nat}
    (h : digit < 16) :
    scanFrom ⟨.unit text (missing + 1) value, before⟩ (Nat.digitChar digit :: rest) =
      scanFrom ⟨.unit text missing (16 * value + digit), before⟩ rest := by
  simp [scanFrom_cons, step, hexValue?_digitChar digit h]

theorem scanFrom_lastHexDigit
    (text : PartialString)
    (value : Nat)
    {digit : Nat}
    (h : digit < 16) :
    scanFrom ⟨.unit text 0 value, before⟩ (Nat.digitChar digit :: rest) =
      scanFrom ⟨.inString (text.pushUnit (16 * value + digit)), before⟩ rest := by
  simp [scanFrom_cons, step, hexValue?_digitChar digit h]

/-- An escaped code unit is read as that unit. -/
theorem scanFrom_unitEscape
    (text : PartialString)
    {unit : Nat}
    (h : unit < 2 ^ 16) :
    scanFrom ⟨.inString text, before⟩ (unitEscape unit ++ rest) =
      scanFrom ⟨.inString (text.pushUnit unit), before⟩ rest := by
  have hbegin (tail : List Char) : scanFrom ⟨.inString text, before⟩ ('\\' :: 'u' :: tail) =
      scanFrom ⟨.unit text 3 0, before⟩ tail := rfl
  have hvalue : 16 * (16 * (16 * (16 * 0 + unit / 4096 % 16) + unit / 256 % 16) +
      unit / 16 % 16) + unit % 16 = unit := by
    omega
  rw [unitEscape]
  simp only [List.cons_append, List.nil_append]
  rw [hbegin, scanFrom_hexDigit text 2 _ (Nat.mod_lt _ (by decide)),
    scanFrom_hexDigit text 1 _ (Nat.mod_lt _ (by decide)),
    scanFrom_hexDigit text 0 _ (Nat.mod_lt _ (by decide)),
    scanFrom_lastHexDigit text _ (Nat.mod_lt _ (by decide)), hvalue]

/--
An escape, or a character that needs none, is read as the character.  Except for the
quote and the backslash, characters with an escape are control characters.
-/
theorem scanFrom_escaped
    (reversed : List Char)
    (char : Char) :
    scanFrom ⟨.inString ⟨reversed, none, false⟩, before⟩ (escaped char ++ rest) =
      scanFrom ⟨.inString ⟨char :: reversed, none, false⟩, before⟩ rest := by
  by_cases hcontrol : char.toNat < 32
  · by_cases hmarked : char ∈ ['\x08', '\t', '\n', '\x0c', '\r']
    · simp only [List.mem_cons, List.not_mem_nil, or_false] at hmarked
      obtain rfl | rfl | rfl | rfl | rfl := hmarked <;> rfl
    · have hquote : char ≠ '"' := by
        rintro rfl
        exact absurd hcontrol (by decide)
      have hslash : char ≠ '\\' := by
        rintro rfl
        exact absurd hcontrol (by decide)
      have hescaped : escaped char = unitEscape char.toNat := by
        simp only [List.mem_cons, List.not_mem_nil, or_false, not_or] at hmarked
        simp [escaped, hmarked, hquote, hslash, hcontrol]
      rw [hescaped, scanFrom_unitEscape _ (by omega), PartialString.pushUnit_of_lt _ (by omega),
        Char.ofNat_toNat]
      rfl
  · by_cases hquote : char = '"'
    · subst hquote
      rfl
    by_cases hslash : char = '\\'
    · subst hslash
      rfl
    have hescaped : escaped char = [char] := by
      have hmarked : ∀ control : Char, control.toNat < 32 → char ≠ control := by
        rintro _ h rfl
        exact hcontrol h
      simp [escaped, hquote, hslash, hcontrol, hmarked]
    simp [hescaped, scanFrom_cons, step, hquote, hslash, hcontrol, PartialString.push]

/-- A string is read back from its characters with their escapes. -/
theorem scanFrom_inString
    (text : List Char) :
    ∀ reversed, scanFrom ⟨.inString ⟨reversed, none, false⟩, before⟩
        (text.flatMap escaped ++ '"' :: rest) =
      scanFrom ⟨.between, .string (some (String.ofList (reversed.reverse ++ text))) :: before⟩
        rest := by
  induction text with
  | nil =>
      intro reversed
      simp [scanFrom_cons, step, PartialString.finish]
  | cons char text ih =>
      intro reversed
      rw [List.flatMap_cons, List.append_assoc, scanFrom_escaped, ih]
      simp

/-- A string between quotes is one token, whatever follows. -/
theorem scanFrom_quoted
    (text : Option String) :
    scanFrom ⟨.between, before⟩ ((quoted text).toList ++ rest) =
      scanFrom ⟨.between, .string text :: before⟩ rest := by
  have hopen (tail : List Char) : scanFrom ⟨.between, before⟩ ('"' :: tail) =
      scanFrom ⟨.inString .empty, before⟩ tail := rfl
  cases text with
  | some text =>
      rw [quoted, String.toList_ofList]
      simp only [List.cons_append, List.append_assoc, List.nil_append]
      rw [hopen, PartialString.empty, scanFrom_inString]
      simp
  | none =>
      rw [quoted, String.toList_ofList]
      simp only [List.cons_append, List.append_assoc, List.nil_append]
      rw [hopen, scanFrom_unitEscape _ (by decide)]
      rfl

end Scanner

/-! ## Numerals -/

namespace Numeral

/-- The characters of which numerals consist. -/
def isNumeralChar
    (char : Char) : Bool :=
  char.isDigit || char ∈ ['-', '+', '.', 'e', 'E']

/-- No character of a numeral ends a word. -/
theorem endsWord_of_isNumeralChar
    {char : Char}
    (h : isNumeralChar char = true) :
    Scanner.endsWord char = false := by
  have hnone : ∀ mark ∈ [' ', '\n', '\t', '\r', '"', '[', ']', '\x7b', '\x7d', ',', ':'],
      isNumeralChar mark = false := by
    simp [isNumeralChar]
  have hother : ∀ mark ∈ [' ', '\n', '\t', '\r', '"', '[', ']', '\x7b', '\x7d', ',', ':'],
      char ≠ mark := by
    rintro _ hmark rfl
    exact Bool.false_ne_true ((hnone char hmark).symm.trans h)
  simp only [List.mem_cons, List.not_mem_nil, or_false, forall_eq_or_imp, forall_eq] at hother
  have hmark : markToken? char = none := by
    unfold markToken?
    split <;> simp_all
  simp [Scanner.endsWord, isBlank, hmark, hother]

theorem isNumeralChar_of_all_isDigit
    {text : List Char}
    (h : text.all Char.isDigit = true) :
    ∀ char ∈ text, isNumeralChar char = true := by
  intro char hchar
  simp [isNumeralChar, List.all_eq_true.1 h char hchar]

theorem isNumeralChar_of_exponentPart?
    {text : List Char}
    {exponent : Option (Bool × List Char)}
    (h : exponentPart? text = some exponent) :
    ∀ char ∈ text, isNumeralChar char = true := by
  unfold exponentPart? at h
  split at h
  next =>
      exact List.forall_mem_nil _
  next mark rest =>
      split at h
      next hmark =>
          have hfirst : isNumeralChar mark = true := by
            obtain rfl | rfl := hmark <;> rfl
          refine List.forall_mem_cons.2 ⟨hfirst, ?_⟩
          split at h
          next negative places hsign =>
              split at h
              next hplaces =>
                  have hdigits := isNumeralChar_of_all_isDigit hplaces.2
                  split at hsign
                  all_goals
                    simp only [Prod.mk.injEq] at hsign
                    obtain ⟨-, rfl⟩ := hsign
                  · exact List.forall_mem_cons.2 ⟨rfl, hdigits⟩
                  · exact List.forall_mem_cons.2 ⟨rfl, hdigits⟩
                  · exact hdigits
              next =>
                  cases h
      next =>
          cases h

theorem isNumeralChar_of_digits
    {text : List Char}
    (hrest : ∀ char ∈ (digits text).2, isNumeralChar char = true) :
    ∀ char ∈ text, isNumeralChar char = true := by
  intro char hchar
  rw [← List.takeWhile_append_dropWhile (p := Char.isDigit) (l := text), List.mem_append] at hchar
  obtain hdigit | hother := hchar
  · exact isNumeralChar_of_all_isDigit List.all_takeWhile char hdigit
  · exact hrest char hother

theorem isNumeralChar_of_fractionPart?
    {text rest : List Char}
    {fraction : Option (List Char)}
    (h : fractionPart? text = some (fraction, rest))
    (hrest : ∀ char ∈ rest, isNumeralChar char = true) :
    ∀ char ∈ text, isNumeralChar char = true := by
  unfold fractionPart? at h
  split at h
  · split at h
    · cases h
    next digits rest hdigits =>
        cases h
        refine List.forall_mem_cons.2 ⟨rfl, isNumeralChar_of_digits ?_⟩
        rw [hdigits]
        exact hrest
  · cases h
    exact hrest

/-- All characters of a numeral may stand in a numeral. -/
theorem isNumeralChar_of_ofText?
    {text : List Char}
    {numeral : Numeral}
    (h : ofText? text = some numeral) :
    ∀ char ∈ text, isNumeralChar char = true := by
  unfold ofText? at h
  split at h
  next negative unsigned hsign =>
      obtain ⟨_, -, h⟩ := Option.bind_eq_some_iff.1 h
      obtain ⟨_, hfraction, h⟩ := Option.bind_eq_some_iff.1 h
      obtain ⟨_, hexponent, -⟩ := Option.bind_eq_some_iff.1 h
      have hunsigned := isNumeralChar_of_digits
        (isNumeralChar_of_fractionPart? hfraction (isNumeralChar_of_exponentPart? hexponent))
      split at hsign
      all_goals
        simp only [Prod.mk.injEq] at hsign
        obtain ⟨-, rfl⟩ := hsign
      · exact List.forall_mem_cons.2 ⟨rfl, hunsigned⟩
      · exact hunsigned

theorem ne_nil_of_ofText?
    {text : List Char}
    {numeral : Numeral}
    (h : ofText? text = some numeral) :
    text ≠ [] := by
  rintro rfl
  cases h

/-- A numeral is the token of that number. -/
theorem wordToken?_of_ofText?
    {text : List Char}
    {numeral : Numeral}
    (h : ofText? text = some numeral) :
    wordToken? text = some (.number (String.ofList text)) := by
  have hnull : text ≠ ['n', 'u', 'l', 'l'] := by
    rintro rfl
    cases h
  have htrue : text ≠ ['t', 'r', 'u', 'e'] := by
    rintro rfl
    cases h
  have hfalse : text ≠ ['f', 'a', 'l', 's', 'e'] := by
    rintro rfl
    cases h
  simp only [wordToken?, if_neg hnull, if_neg htrue, if_neg hfalse, h, Option.map_some]

end Numeral

/-- A numeral is one token. -/
theorem Scanner.scanFrom_numeral
    (text : String)
    (h : (Numeral.ofText? text.toList).isSome)
    {before : List Token}
    {rest : List Char}
    (hrest : Ends rest) :
    scanFrom ⟨.between, before⟩ (text.toList ++ rest) =
      scanFrom ⟨.between, .number text :: before⟩ rest := by
  obtain ⟨numeral, hnumeral⟩ := Option.isSome_iff_exists.1 h
  have htoken := Numeral.wordToken?_of_ofText? hnumeral
  rw [String.ofList_toList] at htoken
  exact scanFrom_word htoken
    (fun char hchar => Numeral.endsWord_of_isNumeralChar
      (Numeral.isNumeralChar_of_ofText? hnumeral char hchar))
    (Numeral.ne_nil_of_ofText? hnumeral) hrest

end Json
end LuaBytecode
