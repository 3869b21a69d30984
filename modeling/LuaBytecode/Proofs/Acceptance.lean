import LuaBytecode.Proofs.ChunkGrammar
import LuaBytecode.Proofs.ReaderRuns

/-!
# Readers accept the grammar

A reader accepts a relation between values and bytes if it reads a value exactly
where bytes of that value lie ahead, and then moves past just these bytes.
Readers in sequence accept bytes one after the other, so acceptance follows the
text of a reader.

The reader of prototypes recurs on a bound for the unread bytes.  Acceptance is
therefore stated below a bound, which a reader that takes bytes lowers for the
readers after it.

**Results.**
* `Reader.Accepts.bind`, `Reader.Accepts.bind_of_length`: readers in sequence.
* `Reader.Accepts.uint`, `Reader.Accepts.int`: numbers.
* `Reader.Accepts.listOf`: counted lists.
-/

namespace LuaBytecode

namespace Reader

variable {α β : Type}

/--
In the given byte order and before at most `bound` unread bytes, `reader` yields
a value exactly if bytes of that value come next.
-/
def Accepts
    (order : ByteOrder)
    (bound : Nat)
    (reader : Reader α)
    (Encoding : α → List UInt8 → Prop) : Prop :=
  ∀ cursor : Cursor, cursor.order = order → cursor.remaining ≤ bound →
    ∀ x next, reader cursor = .ok x next ↔
      ∃ encoded, Encoding x encoded ∧ encoded <+: cursor.rest ∧
        next = cursor.advance encoded.length

/-- The bytes of a value behind those of another one that may decide about it. -/
def Sequence
    (First : α → List UInt8 → Prop)
    (Second : α → β → List UInt8 → Prop)
    (y : β)
    (encoded : List UInt8) : Prop :=
  ∃ x first second, First x first ∧ Second x y second ∧ encoded = first ++ second

namespace Accepts

variable {order : ByteOrder} {bound : Nat}

/-- Acceptance of a relation that is stated otherwise. -/
theorem congr
    {reader : Reader α}
    {Encoding Restated : α → List UInt8 → Prop}
    (h : Accepts order bound reader Encoding)
    (hiff : ∀ x encoded, Encoding x encoded ↔ Restated x encoded) :
    Accepts order bound reader Restated := by
  intro cursor horder hbound x next
  rw [h cursor horder hbound x next]
  simp only [hiff]

theorem pure
    (x : α) :
    Accepts order bound (pure x) (fun y encoded => y = x ∧ encoded = []) := by
  intro cursor _ _ y next
  constructor
  · rintro ⟨⟩
    exact ⟨[], ⟨rfl, rfl⟩, List.nil_prefix, rfl⟩
  · rintro ⟨encoded, ⟨rfl, rfl⟩, -, rfl⟩
    rfl

/-- A reader that only fails accepts what holds of nothing. -/
theorem throw
    {error : ReadError}
    {Encoding : α → List UInt8 → Prop}
    (hnone : ∀ x encoded, ¬ Encoding x encoded) :
    Accepts order bound (throw error) Encoding := by
  intro cursor _ _ y next
  constructor
  · rintro ⟨⟩
  · rintro ⟨encoded, hencoding, -⟩
    exact absurd hencoding (hnone y encoded)

/-- Readers in sequence, of which the second finds fewer bytes unread. -/
theorem bind_of_length
    {reader : Reader α}
    {follow : α → Reader β}
    {First : α → List UInt8 → Prop}
    {Second : α → β → List UInt8 → Prop}
    {later : Nat}
    (hfirst : Accepts order bound reader First)
    (hlength : ∀ x encoded, First x encoded → bound ≤ later + encoded.length)
    (hsecond : ∀ x encoded, First x encoded →
      Accepts order later (follow x) (Second x)) :
    Accepts order bound (reader >>= follow) (Sequence First Second) := by
  intro cursor horder hbound y next
  have hlater :
      ∀ {x encoded}, First x encoded →
        (cursor.advance encoded.length).remaining ≤ later := by
    intro x encoded hx
    have := hlength x encoded hx
    rw [Cursor.remaining_advance]
    omega
  rw [bind_eq_ok_iff]
  constructor
  · rintro ⟨x, middle, hx, hy⟩
    obtain ⟨first, hfirst', ⟨rest, hrest⟩, rfl⟩ :=
      (hfirst cursor horder hbound x middle).1 hx
    obtain ⟨second, hsecond', hprefix, rfl⟩ :=
      (hsecond x first hfirst' (cursor.advance first.length) horder
        (hlater hfirst') y next).1 hy
    rw [Cursor.rest_advance, ← hrest, List.drop_left] at hprefix
    refine ⟨first ++ second, ⟨x, first, second, hfirst', hsecond', rfl⟩, ?_, ?_⟩
    · rw [← hrest]
      exact (List.prefix_append_right_inj first).2 hprefix
    · simp
  · rintro ⟨encoded, ⟨x, first, second, hfirst', hsecond', rfl⟩, ⟨rest, hrest⟩, rfl⟩
    rw [List.append_assoc] at hrest
    refine ⟨x, cursor.advance first.length, ?_, ?_⟩
    · exact (hfirst cursor horder hbound x _).2 ⟨first, hfirst', ⟨_, hrest⟩, rfl⟩
    · refine (hsecond x first hfirst' (cursor.advance first.length) horder
        (hlater hfirst') y _).2 ⟨second, hsecond', ⟨rest, ?_⟩, ?_⟩
      · rw [Cursor.rest_advance, ← hrest, List.drop_left]
      · simp

/-- Readers in sequence. -/
theorem bind
    {reader : Reader α}
    {follow : α → Reader β}
    {First : α → List UInt8 → Prop}
    {Second : α → β → List UInt8 → Prop}
    (hfirst : Accepts order bound reader First)
    (hsecond : ∀ x, Accepts order bound (follow x) (Second x)) :
    Accepts order bound (reader >>= follow) (Sequence First Second) :=
  bind_of_length hfirst (fun _ _ _ => Nat.le_add_right _ _) fun x _ _ => hsecond x

/-- A reader whose value is passed through a function. -/
theorem map
    {reader : Reader α}
    {Encoding : α → List UInt8 → Prop}
    (f : α → β)
    (h : Accepts order bound reader Encoding) :
    Accepts order bound (f <$> reader)
      (fun y encoded => ∃ x, y = f x ∧ Encoding x encoded) := by
  rw [← bind_pure_comp]
  refine (bind h fun x => pure (f x)).congr ?_
  intro y encoded
  constructor
  · rintro ⟨x, first, second, hx, ⟨rfl, rfl⟩, rfl⟩
    exact ⟨x, rfl, by simpa using hx⟩
  · rintro ⟨x, rfl, hx⟩
    exact ⟨x, encoded, [], hx, ⟨rfl, rfl⟩, by simp⟩

/-- A choice that is made before anything is read. -/
theorem ite
    {condition : Prop}
    [Decidable condition]
    {yes no : Reader α}
    {Encoding : α → List UInt8 → Prop}
    (hyes : condition → Accepts order bound yes Encoding)
    (hno : ¬ condition → Accepts order bound no Encoding) :
    Accepts order bound (if condition then yes else no) Encoding := by
  split
  · next h =>
      exact hyes h
  · next h =>
      exact hno h

/-! ## Single reads -/

theorem byte :
    Accepts order bound byte (fun x encoded => encoded = [x]) := by
  intro cursor _ _ x next
  cases hrest : cursor.rest with
  | nil =>
      rw [byte_of_nil hrest]
      simp
  | cons first others =>
      rw [byte_of_cons hrest]
      constructor
      · intro h
        cases h
        exact ⟨[x], rfl, ⟨others, rfl⟩, rfl⟩
      · rintro ⟨encoded, rfl, hprefix, rfl⟩
        rw [(List.cons_prefix_cons.1 hprefix).1]
        rfl

/-- A relation is accepted from its first byte on if what it asks of the others is. -/
theorem byte_bind
    {follow : UInt8 → Reader α}
    {Encoding : α → List UInt8 → Prop}
    (hfollow : ∀ first,
      Accepts order bound (follow first) (fun x others => Encoding x (first :: others)))
    (hnil : ∀ x, ¬ Encoding x []) :
    Accepts order bound (Reader.byte >>= follow) Encoding := by
  refine (bind byte hfollow).congr ?_
  intro x encoded
  constructor
  · rintro ⟨first, _, others, rfl, hothers, rfl⟩
    exact hothers
  · intro h
    cases encoded with
    | nil =>
        exact absurd h (hnil x)
    | cons first others =>
        exact ⟨first, [first], others, rfl, h, rfl⟩

theorem bytes
    (count : Nat) :
    Accepts order bound (bytes count)
      (fun raw encoded => encoded = raw ∧ raw.length = count) := by
  intro cursor _ _ raw next
  rcases Nat.lt_or_ge cursor.remaining count with hshort | hfits
  · rw [bytes_of_lt count cursor hshort]
    constructor
    · rintro ⟨⟩
    · rintro ⟨encoded, ⟨rfl, rfl⟩, hprefix, -⟩
      exact absurd hprefix.length_le (Nat.not_le.2 hshort)
  · rw [bytes_of_le count cursor hfits]
    have hlength : (cursor.rest.take count).length = count :=
      (length_take_eq_iff count cursor.rest).2 hfits
    constructor
    · rintro ⟨⟩
      refine ⟨_, ⟨rfl, hlength⟩, List.take_prefix _ _, ?_⟩
      rw [hlength]
    · rintro ⟨encoded, ⟨rfl, rfl⟩, hprefix, rfl⟩
      rw [← List.prefix_iff_eq_take.1 hprefix]

/-- A relation is accepted from its first bytes on if what it asks of the others is. -/
theorem bytes_bind
    {count : Nat}
    {follow : List UInt8 → Reader α}
    {Encoding : α → List UInt8 → Prop}
    (hfollow : ∀ raw, raw.length = count →
      Accepts order bound (follow raw) (fun x others => Encoding x (raw ++ others)))
    (hleast : ∀ x encoded, Encoding x encoded → count ≤ encoded.length) :
    Accepts order bound (Reader.bytes count >>= follow) Encoding := by
  have hsequence :=
    bind_of_length (bytes count) (fun _ _ _ => Nat.le_add_right bound _)
      fun raw _ hraw => hfollow raw hraw.2
  refine hsequence.congr ?_
  intro x encoded
  constructor
  · rintro ⟨raw, _, others, ⟨rfl, -⟩, hothers, rfl⟩
    exact hothers
  · intro h
    have hsplit := encoded.take_append_drop count
    refine ⟨encoded.take count, _, encoded.drop count, ⟨rfl, ?_⟩, ?_, hsplit.symm⟩
    · exact (length_take_eq_iff count encoded).2 (hleast x encoded h)
    · show Encoding x (encoded.take count ++ encoded.drop count)
      rw [hsplit]
      exact h

/-- Asking for bytes that all forms of a value have changes nothing. -/
theorem require
    {count : Nat}
    {follow : Reader α}
    {Encoding : α → List UInt8 → Prop}
    (h : Accepts order bound follow Encoding)
    (hleast : ∀ x encoded, Encoding x encoded → count ≤ encoded.length) :
    Accepts order bound (do require count; follow) Encoding := by
  intro cursor horder hbound x next
  rw [← h cursor horder hbound x next]
  by_cases hfits : (cursor.rest.take count).length = count
  · have hrequire : Reader.require count cursor = .ok () cursor := by
      simp only [Reader.require, hfits, if_true]
    rw [bind_of_ok hrequire]
  · have hrequire :
        Reader.require count cursor =
          .error (.truncated cursor.position count cursor.remaining) cursor := by
      simp only [Reader.require, hfits, if_false, short]
    rw [bind_of_error hrequire]
    constructor
    · rintro ⟨⟩
    · intro hread
      obtain ⟨encoded, hencoding, hprefix, -⟩ := (h cursor horder hbound x next).1 hread
      have hcount := (hleast x encoded hencoding).trans hprefix.length_le
      exact absurd ((length_take_eq_iff count cursor.rest).2 hcount) hfits

/-- An unsigned number is read from its digits. -/
theorem uint
    (width : Nat) :
    Accepts order bound (uint width) (UnsignedBytes order width) := by
  intro cursor horder hbound n next
  have hraw := (bytes width : Accepts order bound _ _) cursor horder hbound
  constructor
  · intro h
    obtain ⟨raw, middle, hread, hvalue⟩ := bind_eq_ok_iff.1 h
    obtain ⟨encoded, ⟨rfl, hlength⟩, hprefix, rfl⟩ := (hraw raw middle).1 hread
    cases hvalue
    rw [Cursor.order_advance, horder]
    refine ⟨encoded, ⟨?_, ?_⟩, hprefix, rfl⟩
    · rw [← hlength]
      exact order.value_lt encoded
    · rw [← hlength, order.bytes_value]
  · rintro ⟨encoded, ⟨hlt, rfl⟩, hprefix, rfl⟩
    have hread :=
      (hraw (order.bytes width n) (cursor.advance (order.bytes width n).length)).2
        ⟨_, ⟨rfl, order.length_bytes width n⟩, hprefix, rfl⟩
    have hvalue : cursor.order.value (order.bytes width n) = n := by
      rw [horder, order.value_bytes width n hlt]
    refine bind_eq_ok_iff.2 ⟨_, _, hread, ?_⟩
    exact congrArg (EStateM.Result.ok · _) hvalue

/-- A signed number is read from the digits of its residue. -/
theorem int
    {width : Nat}
    (hpos : 0 < width)
    (hmost : width ≤ 8) :
    Accepts order bound (int width)
      (fun x encoded => SignedBytes order width x.toInt encoded) := by
  have hread : Reader.int width = (Int64.ofInt ∘ signedValue width) <$> Reader.uint width :=
    bind_pure_comp _ _
  have hrange : (2 : Int) ^ (8 * width - 1) ≤ 2 ^ 63 :=
    pow_le_pow_right₀ (by norm_num) (by omega)
  rw [hread]
  refine (map _ (uint width)).congr ?_
  intro x encoded
  constructor
  · rintro ⟨n, rfl, hlt, rfl⟩
    obtain ⟨hlow, hhigh⟩ := fitsSigned_signedValue hpos hlt
    have hvalue : (Int64.ofInt (signedValue width n)).toInt = signedValue width n :=
      Int64.toInt_ofInt_of_le (by omega) (by omega)
    simp only [Function.comp_apply, SignedBytes, hvalue]
    exact ⟨⟨hlow, hhigh⟩, by rw [residue_signedValue hlt]⟩
  · rintro ⟨hfits, rfl⟩
    refine ⟨residue width x.toInt, ?_, residue_lt width _, rfl⟩
    rw [Function.comp_apply, signedValue_residue hpos hfits, Int64.ofInt_toInt]

/-! ## Lists -/

/-- Elements are accepted one after the other. -/
theorem collect
    {element : Reader α}
    {Encoding : α → List UInt8 → Prop}
    (h : Accepts order bound element Encoding)
    (count : Nat)
    (done : Array α) :
    Accepts order bound (collect element count done)
      (fun items encoded =>
        ∃ added, items.toList = done.toList ++ added ∧ added.length = count ∧
          ItemsBytes Encoding added encoded) := by
  induction count generalizing done with
  | zero =>
      refine (pure done).congr ?_
      intro items encoded
      constructor
      · rintro ⟨rfl, rfl⟩
        exact ⟨[], by simp, rfl, .nil⟩
      · rintro ⟨added, hitems, hlength, hencoded⟩
        rw [List.eq_nil_of_length_eq_zero hlength] at hitems hencoded
        cases hencoded
        exact ⟨Array.ext' (by simpa using hitems), rfl⟩
  | succ count ih =>
      refine (bind h fun x => ih (done.push x)).congr ?_
      intro items encoded
      constructor
      · rintro ⟨x, first, others, hx, ⟨added, hitems, hlength, hadded⟩, rfl⟩
        refine ⟨x :: added, ?_, ?_, .cons hx hadded⟩
        · rw [hitems]
          simp
        · rw [List.length_cons, hlength]
      · rintro ⟨added, hitems, hlength, hencoded⟩
        cases hencoded with
        | nil =>
            simp at hlength
        | @cons x rest first others hx hrest =>
            refine ⟨x, first, others, hx, ⟨rest, ?_, ?_, hrest⟩, rfl⟩
            · rw [hitems]
              simp
            · simpa using hlength

/-- A counted list is its elements, whatever was set aside for them. -/
theorem listOf
    {element : Reader α}
    {Encoding : α → List UInt8 → Prop}
    (h : Accepts order bound element Encoding)
    (count : Nat)
    (least : Nat) :
    Accepts order bound (listOf count least element)
      (fun items encoded => items.length = count ∧ ItemsBytes Encoding items encoded) := by
  rw [listOf_eq, bind_pure_comp]
  refine (map _ (collect h count #[])).congr ?_
  intro items encoded
  constructor
  · rintro ⟨elements, rfl, added, helements, hlength, hadded⟩
    rw [helements]
    exact ⟨hlength, hadded⟩
  · rintro ⟨hlength, hitems⟩
    exact ⟨items.toArray, rfl, items, rfl, hlength, hitems⟩

end Accepts
end Reader
end LuaBytecode
