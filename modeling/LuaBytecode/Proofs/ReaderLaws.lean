import LuaBytecode.Proofs.ReaderRuns

/-!
# Laws of readers

The readers behind a header are all put together from four elementary ones.  A
relation between readers that holds of the elementary ones and is kept by
sequences is a law: it holds of every reader of a part of a prototype, and of
the reader of prototypes if it holds of the readers of inner ones.

A law relates two readers because a prototype is read with a bound for its
depth, and two runs need not have the same bound.

**Results.**
* `Reader.Law.readString`, `Reader.Law.readSection`, `Reader.Law.readConstant`:
  a law holds of the parts of a prototype.
* `Reader.Law.readBody`: it passes from inner prototypes to the outer one.
-/

namespace LuaBytecode
namespace Reader

/-- The tags of constants. -/
def constantTags : List UInt8 := [0, 1, 3, 4]

/-- A relation that holds of the elementary readers and is kept by sequences. -/
structure Law
    (P : (α : Type) → Reader α → Reader α → Prop) : Prop where
  pure : ∀ {α : Type} (x : α), P α (pure x) (pure x)
  unknownTag : ∀ {α : Type} {tag : UInt8}, tag ∉ constantTags →
    P α (throw (.unknownConstantTag tag)) (throw (.unknownConstantTag tag))
  bytes : ∀ count, P (List UInt8) (bytes count) (bytes count)
  order : P ByteOrder order order
  bind : ∀ {α β : Type} {reader reader' : Reader α} {follow follow' : α → Reader β},
    P α reader reader' → (∀ x, P β (follow x) (follow' x)) →
      P β (reader >>= follow) (reader' >>= follow')

namespace Law

variable {P : (α : Type) → Reader α → Reader α → Prop} (law : Law P)
include law

/-- A byte is read as a list of one. -/
theorem byte :
    P UInt8 byte byte := by
  rw [byte_eq]
  exact law.bind (law.bytes 1) fun _ => law.pure _

/-- A number is read from its bytes and the byte order. -/
theorem uint
    (width : Nat) :
    P Nat (uint width) (uint width) :=
  law.bind (law.bytes width) fun _ => law.bind law.order fun _ => law.pure _

theorem int
    (width : Nat) :
    P Int64 (int width) (int width) :=
  law.bind (law.uint width) fun _ => law.pure _

theorem word :
    P UInt32 word word :=
  law.bind (law.uint 4) fun _ => law.pure _

/-- What is made of a result does not matter to a law. -/
theorem map
    {α β : Type}
    {reader reader' : Reader α}
    (f : α → β)
    (h : P α reader reader') :
    P β (f <$> reader) (f <$> reader') := by
  rw [← bind_pure_comp, ← bind_pure_comp]
  exact law.bind h fun x => law.pure (f x)

/-! ## Lists -/

section Lists

variable {α : Type} {element element' : Reader α} (h : P α element element')
include h

/-- A law passes from the reader of an element to that of several ones. -/
theorem collect
    (count : Nat)
    (done : Array α) :
    P (Array α) (collect element count done) (collect element' count done) := by
  induction count generalizing done with
  | zero =>
      exact law.pure done
  | succ count ih =>
      exact law.bind h fun x => ih (done.push x)

/-- The room that is set aside for a list does not matter to a law. -/
theorem listOf
    (count : Nat)
    (least : Nat) :
    P (List α) (listOf count least element) (listOf count least element') := by
  rw [listOf_eq, listOf_eq]
  exact law.bind (law.collect h count #[]) fun _ => law.pure _

/-- A list is read by its length, and then by its elements. -/
theorem readSection
    (header : Header)
    (least : Nat) :
    P (List α) (readSection header least element) (readSection header least element') :=
  law.bind (law.uint _) fun count => law.listOf h count least

end Lists

/-! ## Parts of a prototype -/

variable (header : Header)

theorem readString :
    P String (readString header) (readString header) :=
  law.bind (law.uint _) fun length => law.bind (law.bytes length) fun _ => law.pure _

/-- A number has one of two widths, and its bytes are read in either case. -/
theorem readNumber :
    P Double (readNumber header) (readNumber header) := by
  rw [LuaBytecode.readNumber]
  split
  · exact law.bind (law.uint 4) fun _ => law.pure _
  · exact law.bind (law.uint 8) fun _ => law.pure _

/-- A constant is read by its tag, of which all others are refused. -/
theorem readConstant :
    P Constant (Constant.read header) (Constant.read header) := by
  refine law.bind law.byte fun tag => ?_
  by_cases hnil : tag = 0
  · simp only [if_pos hnil]
    exact law.pure _
  by_cases hbool : tag = 1
  · simp only [if_neg hnil, if_pos hbool]
    exact law.bind law.byte fun _ => law.pure _
  by_cases hnumber : tag = 3
  · simp only [if_neg hnil, if_neg hbool, if_pos hnumber]
    exact law.bind (law.readNumber header) fun _ => law.pure _
  by_cases hstring : tag = 4
  · simp only [if_neg hnil, if_neg hbool, if_neg hnumber, if_pos hstring]
    exact law.bind (law.readString header) fun _ => law.pure _
  · simp only [if_neg hnil, if_neg hbool, if_neg hnumber, if_neg hstring]
    exact law.unknownTag (by simp [constantTags, hnil, hbool, hnumber, hstring])

theorem readLocal :
    P LocalVariable (LocalVariable.read header) (LocalVariable.read header) :=
  law.bind (law.readString header) fun _ =>
    law.bind (law.int _) fun _ => law.bind (law.int _) fun _ => law.pure _

/-- Lists are read alike if inner prototypes are. -/
theorem sectionList
    {inner inner' : Reader Prototype}
    (hinner : P Prototype inner inner')
    (kind : Section) :
    P (List kind.Element) (kind.read header inner) (kind.read header inner') := by
  refine law.readSection ?_ header _
  cases kind with
  | instructions =>
      exact law.map Instruction.decode law.word
  | constants =>
      exact law.readConstant header
  | children =>
      exact hinner
  | lines =>
      exact law.map zeroBasedLine (law.int _)
  | locals =>
      exact law.readLocal header
  | upvalueNames =>
      exact law.readString header

/-- A law passes from the readers of inner prototypes to those of outer ones. -/
theorem readBody
    {inner inner' : Reader Prototype}
    (hinner : P Prototype inner inner')
    (sourceName : String) :
    P Prototype (Prototype.readBody header (Section.read header inner) sourceName)
      (Prototype.readBody header (Section.read header inner') sourceName) := by
  have hlist := law.sectionList header hinner
  refine law.bind (law.int _) fun _ => law.bind (law.int _) fun _ => ?_
  refine law.bind law.byte fun _ => law.bind law.byte fun _ => ?_
  refine law.bind law.byte fun _ => law.bind law.byte fun _ => ?_
  refine law.bind (hlist .instructions) fun _ => law.bind (hlist .constants) fun _ => ?_
  refine law.bind (hlist .children) fun _ => law.bind (hlist .lines) fun _ => ?_
  exact law.bind (hlist .locals) fun _ => law.bind (hlist .upvalueNames) fun _ => law.pure _

end Law
end Reader
end LuaBytecode
