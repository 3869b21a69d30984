import LuaBytecode.Json.Parser
import LuaBytecode.Proofs.JsonScanning

/-!
# Values read back from their text

Between a value and its text stand its tokens.  They are the same in every
layout, and the text of a value is scanned as its tokens wherever a word may end
behind it; from the tokens the value is built, whatever containers are open.

**Results.**
* `Value.feed_tokens`: the tokens of a value build it.
* `Value.scanFrom_render`: the text of a value is scanned as its tokens.
* `Value.parse?_render`: a value is read back from its text.
-/

namespace LuaBytecode
namespace Json

/-- A layout that adds nothing but blanks. -/
structure Layout.Blank
    (layout : Layout) : Prop where
  newline : ∀ depth, ∀ char ∈ (layout.newline depth).toList, isBlank char = true
  gap : ∀ char ∈ layout.gap.toList, isBlank char = true

theorem Layout.blank_compact :
    Layout.compact.Blank where
  newline := by simp [Layout.compact]
  gap := by simp [Layout.compact]

theorem Layout.blank_pretty :
    Layout.pretty.Blank where
  newline := by
    intro depth char hchar
    simp only [Layout.pretty, String.toList_append, String.toList_ofList, List.mem_append,
      List.mem_replicate] at hchar
    obtain hbreak | ⟨-, rfl⟩ := hchar
    · exact List.all_eq_true.1 (rfl : "\n".toList.all isBlank = true) char hbreak
    · rfl
  gap := List.all_eq_true.1 rfl

namespace Builder

/-- Takes several tokens. -/
def feed
    (builder : Builder)
    (tokens : List Token) : Option Builder :=
  tokens.foldlM step builder

/-- Tokens are taken one by one. -/
theorem feed_cons
    (builder : Builder)
    (token : Token)
    (tokens : List Token) :
    builder.feed (token :: tokens) = (builder.step token).bind fun next => next.feed tokens :=
  List.foldlM_cons

end Builder

namespace Value

mutual

/-- Whether all numbers of a value are numerals. -/
def Numerals :
    Value → Prop
  | .number text => (Numeral.ofText? text.toList).isSome
  | .array items => AllNumerals items
  | .object members => MembersNumerals members
  | _ => True

/-- Whether all numbers of several values are numerals. -/
def AllNumerals :
    List Value → Prop
  | [] => True
  | item :: rest => Numerals item ∧ AllNumerals rest

/-- Whether all numbers of several members are numerals. -/
def MembersNumerals :
    List Member → Prop
  | [] => True
  | (_, value) :: rest => Numerals value ∧ MembersNumerals rest

end

mutual

/-- The tokens of a value. -/
def tokens :
    Value → List Token
  | .null => [.null]
  | .bool truth => [.bool truth]
  | .number text => [.number text]
  | .string text => [.string text]
  | .array [] => [.openArray, .closeArray]
  | .array (item :: rest) => .openArray :: tokens item ++ itemTokens rest ++ [.closeArray]
  | .object [] => [.openObject, .closeObject]
  | .object ((key, value) :: rest) =>
      .openObject :: .string key :: .colon :: tokens value ++ memberTokens rest ++ [.closeObject]

/-- The tokens of further items of an array. -/
def itemTokens :
    List Value → List Token
  | [] => []
  | item :: rest => .comma :: tokens item ++ itemTokens rest

/-- The tokens of further members of an object. -/
def memberTokens :
    List Member → List Token
  | [] => []
  | (key, value) :: rest =>
      .comma :: .string key :: .colon :: tokens value ++ memberTokens rest

end

mutual

/-- Wherever a value may come next, its tokens build it. -/
theorem feed_tokens :
    ∀ (value : Value) (opened : Bool) (frames : List Frame) (more : List Token),
      Builder.feed (.value opened frames) (value.tokens ++ more) =
        Builder.feed (.done value frames) more
  | .null, _, _, _ | .bool _, _, _, _ | .number _, _, _, _ | .string _, _, _, _
  | .array [], _, _, _ | .object [], _, _, _ => rfl
  | .array (item :: rest), _, frames, more => by
      simp only [tokens, List.cons_append, List.append_assoc, List.nil_append, Builder.feed_cons,
        Builder.step, Option.bind_some, feed_tokens item, feed_itemTokens rest]
      rfl
  | .object ((key, value) :: rest), _, frames, more => by
      simp only [tokens, List.cons_append, List.append_assoc, List.nil_append, Builder.feed_cons,
        Builder.step, Option.bind_some, feed_tokens value, feed_memberTokens rest]
      rfl

theorem feed_itemTokens :
    ∀ (rest : List Value) (item : Value) (items : List Value) (frames : List Frame)
      (more : List Token),
      Builder.feed (.done item (.array items :: frames)) (itemTokens rest ++ .closeArray :: more) =
        Builder.feed (.done (.array ((item :: items).reverse ++ rest)) frames) more
  | [], item, items, _, _ => by
      rw [List.append_nil]
      rfl
  | next :: rest, item, items, frames, more => by
      simp only [itemTokens, List.cons_append, List.append_assoc, Builder.feed_cons, Builder.step,
        Option.bind_some, feed_tokens next, feed_itemTokens rest, List.reverse_cons,
        List.nil_append]

theorem feed_memberTokens :
    ∀ (rest : List Member) (key : Option String) (value : Value) (members : List Member)
      (frames : List Frame) (more : List Token),
      Builder.feed (.done value (.object members key :: frames))
          (memberTokens rest ++ .closeObject :: more) =
        Builder.feed (.done (.object (((key, value) :: members).reverse ++ rest)) frames) more
  | [], _, _, _, _, _ => by
      rw [List.append_nil]
      rfl
  | (next, value) :: rest, _, _, members, frames, more => by
      simp only [memberTokens, List.cons_append, List.append_assoc, Builder.feed_cons,
        Builder.step, Option.bind_some, feed_tokens value, feed_memberTokens rest,
        List.reverse_cons, List.nil_append]

end

/-! ## Rendering -/

section Rendering

open Scanner

variable {layout : Layout}

theorem ends_renderItems
    (layout : Layout)
    (depth : Nat)
    (items : List Value)
    {rest : List Char}
    (hrest : Ends rest) :
    Ends ((renderItems layout depth items).toList ++ rest) := by
  cases items with
  | nil =>
      rw [renderItems]
      exact hrest
  | cons item items =>
      simp only [renderItems, String.toList_append, List.append_assoc]
      exact ends_cons.2 rfl

/-- What is left of an object begins with a character that ends a word. -/
theorem ends_renderMembers
    (layout : Layout)
    (depth : Nat)
    (members : List Member)
    {rest : List Char}
    (hrest : Ends rest) :
    Ends ((renderMembers layout depth members).toList ++ rest) := by
  cases members with
  | nil =>
      rw [renderMembers]
      exact hrest
  | cons entry members =>
      obtain ⟨key, value⟩ := entry
      simp only [renderMembers, String.toList_append, List.append_assoc]
      exact ends_cons.2 rfl

mutual

/-- The text of a value, in any layout of blanks, is scanned as its tokens. -/
theorem scanFrom_render
    (h : layout.Blank) :
    ∀ (value : Value), value.Numerals → ∀ (depth : Nat) (before : List Token) (rest : List Char),
      Ends rest →
      scanFrom ⟨.between, before⟩ ((value.render layout depth).toList ++ rest) =
        scanFrom ⟨.between, value.tokens.reverse ++ before⟩ rest
  | .null, _, _, _, _, hrest => by
      rw [render]
      exact scanFrom_word rfl (by simp [endsWord, isBlank, markToken?]) (by decide) hrest
  | .bool true, _, _, _, _, hrest => by
      rw [render]
      exact scanFrom_word rfl (by simp [endsWord, isBlank, markToken?]) (by decide) hrest
  | .bool false, _, _, _, _, hrest => by
      rw [render]
      exact scanFrom_word rfl (by simp [endsWord, isBlank, markToken?]) (by decide) hrest
  | .number text, hnumerals, _, _, _, hrest => by
      rw [Numerals] at hnumerals
      rw [render]
      exact scanFrom_numeral text hnumerals hrest
  | .string text, _, _, _, _, _ => by
      rw [render]
      exact scanFrom_quoted text
  | .array [], _, _, _, _, _ => by
      rw [render]
      exact (scanFrom_mark rfl).trans (scanFrom_mark rfl)
  | .object [], _, _, _, _, _ => by
      rw [render]
      exact (scanFrom_mark rfl).trans (scanFrom_mark rfl)
  | .array (item :: items), hnumerals, depth, before, rest, hrest => by
      rw [Numerals, AllNumerals] at hnumerals
      have hend : Ends ((layout.newline depth).toList ++ ("]".toList ++ rest)) :=
        ends_blanks (h.newline depth) (ends_cons.2 rfl)
      simp only [render, String.toList_append, List.append_assoc]
      rw [scanFrom_markText "[" rfl rfl, scanFrom_blanks (h.newline _),
        scanFrom_render h item hnumerals.1 _ _ _ (ends_renderItems layout _ items hend),
        scanFrom_renderItems h items hnumerals.2 _ _ _ hend, scanFrom_blanks (h.newline _),
        scanFrom_markText "]" rfl rfl]
      simp [tokens]
  | .object ((key, value) :: members), hnumerals, depth, before, rest, hrest => by
      rw [Numerals, MembersNumerals] at hnumerals
      have hend : Ends ((layout.newline depth).toList ++ ("\x7d".toList ++ rest)) :=
        ends_blanks (h.newline depth) (ends_cons.2 rfl)
      simp only [render, String.toList_append, List.append_assoc]
      rw [scanFrom_markText "\x7b" rfl rfl, scanFrom_blanks (h.newline _), scanFrom_quoted,
        scanFrom_markText ":" rfl rfl,
        scanFrom_blanks h.gap,
        scanFrom_render h value hnumerals.1 _ _ _ (ends_renderMembers layout _ members hend),
        scanFrom_renderMembers h members hnumerals.2 _ _ _ hend, scanFrom_blanks (h.newline _),
        scanFrom_markText "\x7d" rfl rfl]
      simp [tokens]

theorem scanFrom_renderItems
    (h : layout.Blank) :
    ∀ (items : List Value), AllNumerals items →
      ∀ (depth : Nat) (before : List Token) (rest : List Char), Ends rest →
      scanFrom ⟨.between, before⟩ ((renderItems layout depth items).toList ++ rest) =
        scanFrom ⟨.between, (itemTokens items).reverse ++ before⟩ rest
  | [], _, _, _, _, _ => by
      rw [renderItems]
      rfl
  | item :: items, hnumerals, depth, before, rest, hrest => by
      rw [AllNumerals] at hnumerals
      simp only [renderItems, String.toList_append, List.append_assoc]
      rw [scanFrom_markText "," rfl rfl, scanFrom_blanks (h.newline _),
        scanFrom_render h item hnumerals.1 _ _ _ (ends_renderItems layout _ items hrest),
        scanFrom_renderItems h items hnumerals.2 _ _ _ hrest]
      simp [itemTokens]

theorem scanFrom_renderMembers
    (h : layout.Blank) :
    ∀ (members : List Member), MembersNumerals members →
      ∀ (depth : Nat) (before : List Token) (rest : List Char), Ends rest →
      scanFrom ⟨.between, before⟩ ((renderMembers layout depth members).toList ++ rest) =
        scanFrom ⟨.between, (memberTokens members).reverse ++ before⟩ rest
  | [], _, _, _, _, _ => by
      rw [renderMembers]
      rfl
  | (key, value) :: members, hnumerals, depth, before, rest, hrest => by
      rw [MembersNumerals] at hnumerals
      simp only [renderMembers, String.toList_append, List.append_assoc]
      rw [scanFrom_markText "," rfl rfl, scanFrom_blanks (h.newline _), scanFrom_quoted,
        scanFrom_markText ":" rfl rfl,
        scanFrom_blanks h.gap,
        scanFrom_render h value hnumerals.1 _ _ _ (ends_renderMembers layout _ members hrest),
        scanFrom_renderMembers h members hnumerals.2 _ _ _ hrest]
      simp [memberTokens]

end

/-- A value is read back from its text in any layout, with blanks behind it or none. -/
theorem parse?_render
    (h : layout.Blank)
    (value : Value)
    (hnumerals : value.Numerals)
    {blanks : String}
    (hblanks : ∀ char ∈ blanks.toList, isBlank char = true) :
    parse? (value.render layout 0 ++ blanks) = some value := by
  have hend : Ends (blanks.toList ++ []) := ends_blanks hblanks ends_nil
  have htokens : Token.scan? (value.render layout 0 ++ blanks).toList = some value.tokens := by
    have hscan := scanFrom_render h value hnumerals 0 [] _ hend
    rw [scanFrom_blanks hblanks, scanFrom_nil, List.append_nil, ← String.toList_append,
      List.append_nil] at hscan
    refine Eq.trans hscan ?_
    rw [finish, List.reverse_reverse]
  have hbuilt := feed_tokens value false [] []
  rw [List.append_nil] at hbuilt
  rw [parse?, htokens]
  exact congrArg (Option.bind · Builder.finish) hbuilt

end Rendering
end Value
end Json
end LuaBytecode
