import LuaBytecode.Proofs.ChunkGrammar
import LuaBytecode.Proofs.ReaderRuns

/-!
# How many bytes readers take

A reader that succeeds has taken a number of bytes of which a least one is known
beforehand.  The least numbers of two readers in sequence add up, and those of
the elements of a list are multiplied by the length of the list.

The least size of a prototype is counted over its parts, six empty lists among
them; the elements of these lists take the least sizes that the lists reckon with.

**Results.**
* `Reader.Consumes.bind`: the least numbers of bytes of two readers add up.
* `Reader.listOf_cases`: a counted list ends after its last element, or at the
  element that fails.
* `Section.consumes_element`: the least size of the elements of each list.
* `Section.inTurn_of_listOf`: a list that is read to its end.
* `Prototype.consumes_read`: the least size of a prototype.
-/

namespace LuaBytecode

/-! ## The least number of bytes -/

namespace Reader

variable {α β : Type}

/-- A reader that takes at least `least` bytes where it succeeds. -/
def Consumes
    (least : Nat)
    (reader : Reader α) : Prop :=
  ∀ (cursor : Cursor) (x : α) (next : Cursor),
    reader cursor = .ok x next → next.remaining + least ≤ cursor.remaining

namespace Consumes

variable {first second : Nat}

theorem mono
    {reader : Reader α}
    (h : Consumes second reader)
    (hle : first ≤ second) :
    Consumes first reader := by
  intro cursor x next hrun
  have := h cursor x next hrun
  omega

theorem pure
    (x : α) :
    Consumes 0 (pure x : Reader α) := by
  rintro cursor _ _ ⟨⟩
  exact Nat.le_refl _

theorem throw
    (error : ReadError) :
    Consumes first (throw error : Reader α) := by
  rintro cursor x next ⟨⟩

/-- The least numbers of bytes of two readers in sequence add up. -/
theorem bind
    {reader : Reader α}
    {follow : α → Reader β}
    (h : Consumes first reader)
    (hfollow : ∀ x, Consumes second (follow x)) :
    Consumes (first + second) (reader >>= follow) := by
  intro cursor y last hrun
  obtain ⟨x, next, hx, hy⟩ := bind_eq_ok_iff.1 hrun
  have hfirst := h cursor x next hx
  have hsecond := hfollow x next y last hy
  omega

theorem map
    {reader : Reader α}
    (f : α → β)
    (h : Consumes first reader) :
    Consumes first (f <$> reader) := by
  rw [← bind_pure_comp]
  exact h.bind fun x => pure (f x)

theorem bytes
    (count : Nat) :
    Consumes count (bytes count) := by
  intro cursor raw next hrun
  rcases Nat.lt_or_ge cursor.remaining count with hshort | hfits
  · rw [bytes_of_lt count cursor hshort] at hrun
    cases hrun
  · rw [bytes_of_le count cursor hfits] at hrun
    cases hrun
    rw [Cursor.remaining_advance]
    omega

theorem byte :
    Consumes 1 byte := by
  rw [byte_eq]
  exact (bytes 1).bind fun _ => pure _

theorem order :
    Consumes 0 order := by
  rintro cursor _ _ ⟨⟩
  exact Nat.le_refl _

theorem uint
    (width : Nat) :
    Consumes width (uint width) :=
  (bytes width).bind fun _ => order.bind fun _ => pure _

theorem int
    (width : Nat) :
    Consumes width (int width) :=
  (uint width).bind fun _ => pure _

theorem word :
    Consumes 4 word :=
  (uint 4).bind fun _ => pure _

end Consumes

/-! ## Counted lists -/

/-- Elements that are read one after the other. -/
inductive InTurn
    (element : Reader α) :
    List α → Cursor → Cursor → Prop
  | nil
      {cursor : Cursor} :
      InTurn element [] cursor cursor
  | cons
      {x : α} {others : List α}
      {cursor middle next : Cursor}
      (hfirst : element cursor = .ok x middle)
      (hothers : InTurn element others middle next) :
      InTurn element (x :: others) cursor next

/-- Each element takes its least number of bytes. -/
theorem InTurn.remaining_add_le
    {element : Reader α}
    {items : List α}
    {cursor next : Cursor}
    {least : Nat}
    (helement : Consumes least element)
    (h : InTurn element items cursor next) :
    next.remaining + items.length * least ≤ cursor.remaining := by
  induction h with
  | nil =>
      simp
  | cons hfirst hothers ih =>
      have hbytes := helement _ _ _ hfirst
      rw [List.length_cons, Nat.succ_mul]
      omega

/-- Elements of a least size are no more than the unread bytes can hold. -/
theorem InTurn.length_le
    {element : Reader α}
    {items : List α}
    {cursor next : Cursor}
    {least : Nat}
    (helement : Consumes least element)
    (hpos : 0 < least)
    (h : InTurn element items cursor next) :
    items.length ≤ cursor.remaining / least := by
  rw [Nat.le_div_iff_mul_le hpos]
  exact (Nat.le_add_left _ _).trans (h.remaining_add_le helement)

/-- Reading `count` elements ends behind the last of them, or where one of them fails. -/
theorem collect_cases
    (element : Reader α)
    (count : Nat)
    (done : Array α)
    (cursor : Cursor) :
    (∃ (items : List α) (next : Cursor),
      collect element count done cursor = .ok (done ++ items) next ∧
        items.length = count ∧ InTurn element items cursor next) ∨
    ∃ items middle error last, collect element count done cursor = .error error last ∧
      items.length < count ∧ InTurn element items cursor middle ∧
        element middle = .error error last := by
  induction count generalizing done cursor with
  | zero =>
      refine Or.inl ⟨[], cursor, ?_, rfl, .nil⟩
      simp only [Array.appendList_nil]
      rfl
  | succ count ih =>
      rw [collect]
      cases hrun : element cursor with
      | error error last =>
          rw [bind_of_error hrun]
          exact Or.inr ⟨[], cursor, error, last, rfl, Nat.succ_pos _, .nil, hrun⟩
      | ok x middle =>
          rw [bind_of_ok hrun]
          rcases ih (done.push x) middle with
            ⟨items, next, hcollect, hlength, hitems⟩ |
            ⟨items, place, error, last, hcollect, hlength, hitems, hfails⟩
          · refine Or.inl ⟨x :: items, next, ?_, by rw [List.length_cons, hlength],
              .cons hrun hitems⟩
            rw [hcollect]
            simp
          · exact Or.inr ⟨x :: items, place, error, last, hcollect,
              Nat.succ_lt_succ hlength, .cons hrun hitems, hfails⟩

/-- A counted list ends behind its last element, or at the first one that fails. -/
theorem listOf_cases
    (element : Reader α)
    (count : Nat)
    (least : Nat)
    (cursor : Cursor) :
    (∃ items next, listOf count least element cursor = .ok items next ∧
      items.length = count ∧ InTurn element items cursor next) ∨
    ∃ items middle error last, listOf count least element cursor = .error error last ∧
      items.length < count ∧ InTurn element items cursor middle ∧
        element middle = .error error last := by
  rw [listOf_eq]
  rcases collect_cases element count #[] cursor with
    ⟨items, next, hcollect, hlength, hitems⟩ |
    ⟨items, middle, error, last, hcollect, hlength, hitems, hfails⟩
  · refine Or.inl ⟨items, next, ?_, hlength, hitems⟩
    rw [bind_of_ok hcollect]
    simp
    rfl
  · exact Or.inr ⟨items, middle, error, last, bind_of_error hcollect, hlength, hitems, hfails⟩

/-- A list takes as many times the least size as it has elements. -/
theorem Consumes.listOf
    {element : Reader α}
    {size : Nat}
    (h : Consumes size element)
    (count : Nat)
    (least : Nat) :
    Consumes (count * size) (Reader.listOf count least element) := by
  intro cursor items next hrun
  rcases listOf_cases element count least cursor with
    ⟨found, last, hfound, hlength, hturn⟩ | ⟨_, _, _, _, hfails, _⟩
  · rw [hfound] at hrun
    cases hrun
    rw [← hlength]
    exact hturn.remaining_add_le h
  · rw [hfails] at hrun
    cases hrun

end Reader

open Reader

/-! ## The parts of a prototype -/

section Parts

variable (header : Header)

/-- A string takes the bytes of its length at least. -/
theorem consumes_readString :
    Consumes header.sizeWidth.toNat (readString header) :=
  (Consumes.uint _).bind fun length =>
    ((Consumes.bytes length).bind fun _ => Consumes.pure _).mono (Nat.zero_le _)

/-- A constant takes its tag at least. -/
theorem Constant.consumes_read :
    Consumes 1 (Constant.read header) := by
  change Consumes (1 + 0) _
  refine Consumes.byte.bind fun tag => ?_
  by_cases hnil : tag = 0
  · simp only [if_pos hnil]
    exact Consumes.pure _
  by_cases hbool : tag = 1
  · simp only [if_neg hnil, if_pos hbool]
    exact (Consumes.byte.bind fun _ => Consumes.pure _).mono (Nat.zero_le _)
  by_cases hnumber : tag = 3
  · have hread : Consumes 4 (readNumber header) := by
      rw [readNumber]
      split
      · exact (Consumes.uint 4).bind fun _ => Consumes.pure _
      · exact ((Consumes.uint 8).bind fun _ => Consumes.pure _).mono (by decide)
    simp only [if_neg hnil, if_neg hbool, if_pos hnumber]
    exact (hread.bind fun _ => Consumes.pure _).mono (Nat.zero_le _)
  by_cases hstring : tag = 4
  · simp only [if_neg hnil, if_neg hbool, if_neg hnumber, if_pos hstring]
    exact ((consumes_readString header).bind fun _ => Consumes.pure _).mono (Nat.zero_le _)
  · simp only [if_neg hnil, if_neg hbool, if_neg hnumber, if_neg hstring]
    exact Consumes.throw _

/-- A local variable takes the length of its name and two integers at least. -/
theorem LocalVariable.consumes_read :
    Consumes (header.sizeWidth.toNat + 2 * header.intWidth.toNat)
      (LocalVariable.read header) := by
  refine Consumes.mono ((consumes_readString header).bind fun _ =>
    (Consumes.int _).bind fun _ => (Consumes.int _).bind fun _ => Consumes.pure _) ?_
  omega

end Parts

/-! ## Lists and prototypes -/

section Lists

variable {header : Header} (hvalid : header.Valid)
include hvalid

/-- An element of a list takes the least size that the list reckons with. -/
theorem Section.consumes_element
    {inner : Reader Prototype}
    (hinner : Consumes header.leastPrototypeSize inner)
    (kind : Section) :
    Consumes (kind.least header) (kind.element header inner) := by
  cases kind with
  | instructions =>
      exact (Consumes.word.map Instruction.decode).mono hvalid.instructionWidth_eq.le
  | constants =>
      exact Constant.consumes_read header
  | children =>
      exact hinner
  | lines =>
      exact (Consumes.int _).map zeroBasedLine
  | locals =>
      exact LocalVariable.consumes_read header
  | upvalueNames =>
      exact consumes_readString header

theorem Section.least_pos
    (kind : Section) :
    0 < kind.least header := by
  have hint := hvalid.intWidth_bounds.1
  have hsize := hvalid.sizeWidth_bounds.1
  have hinstruction := hvalid.instructionWidth_eq
  cases kind <;> simp only [least, Header.leastPrototypeSize] <;> omega

/-- A list that is read to its end has all its elements, and the unread bytes could hold them. -/
theorem Section.inTurn_of_listOf
    {inner : Reader Prototype}
    (hinner : Consumes header.leastPrototypeSize inner)
    {kind : Section}
    {count : Nat}
    {cursor next : Cursor}
    {items : List kind.Element}
    (h : listOf count (kind.least header) (kind.element header inner) cursor = .ok items next) :
    items.length = count ∧ InTurn (kind.element header inner) items cursor next ∧
      count ≤ cursor.remaining / kind.least header := by
  obtain ⟨found, last, hfound, hlength, hturn⟩ | ⟨_, _, _, _, hfails, -⟩ :=
    listOf_cases (kind.element header inner) count (kind.least header) cursor
  · cases hfound.symm.trans h
    have hmost := hturn.length_le (kind.consumes_element hvalid hinner) (kind.least_pos hvalid)
    rw [hlength] at hmost
    exact ⟨hlength, hturn, hmost⟩
  · cases hfails.symm.trans h

/-- A list takes at least the bytes of its length. -/
theorem Section.consumes_read
    {inner : Reader Prototype}
    (hinner : Consumes header.leastPrototypeSize inner)
    (kind : Section) :
    Consumes header.intWidth.toNat (kind.read header inner) :=
  (Consumes.uint _).bind fun count =>
    ((kind.consumes_element hvalid hinner).listOf count _).mono (Nat.zero_le _)

/-- What follows the source name: two lines, four bytes and the lengths of six lists. -/
theorem Prototype.consumes_readBody
    {inner : Reader Prototype}
    (hinner : Consumes header.leastPrototypeSize inner)
    (sourceName : String) :
    Consumes (8 * header.intWidth.toNat + 4)
      (Prototype.readBody header (Section.read header inner) sourceName) := by
  have hlist := Section.consumes_read hvalid hinner
  refine Consumes.mono ((Consumes.int _).bind fun _ => (Consumes.int _).bind fun _ =>
    Consumes.byte.bind fun _ => Consumes.byte.bind fun _ =>
    Consumes.byte.bind fun _ => Consumes.byte.bind fun _ =>
    (hlist .instructions).bind fun _ => (hlist .constants).bind fun _ =>
    (hlist .children).bind fun _ => (hlist .lines).bind fun _ =>
    (hlist .locals).bind fun _ => (hlist .upvalueNames).bind fun _ => Consumes.pure _) ?_
  omega

/-- No prototype takes fewer bytes than one whose parts are all empty. -/
theorem Prototype.consumes_read
    (depth : Nat) :
    Consumes header.leastPrototypeSize (Prototype.read header depth) := by
  induction depth with
  | zero =>
      rintro cursor tree next ⟨⟩
  | succ depth ih =>
      refine Consumes.mono ((consumes_readString header).bind fun sourceName =>
        Prototype.consumes_readBody hvalid ih sourceName) ?_
      rw [Header.leastPrototypeSize]
      omega

end Lists

end LuaBytecode
