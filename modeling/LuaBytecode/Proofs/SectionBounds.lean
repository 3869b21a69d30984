import LuaBytecode.Proofs.RoomRequests

/-!
# How many elements a list can have

The length of a list comes from the file and may be any number.  Every element
takes a number of bytes that is known beforehand, so the unread bytes bound how
many elements can follow: a longer list ends in an error when they are used up,
and what is asked for a list is what is read if the list is read to its end.

**Results.**
* `Section.withinUnread`: a list against the bytes behind its length.
* `Section.read_within_unread`: the six lists of a prototype, and the recursion.
-/

namespace LuaBytecode

open Reader

/-- A reader of prototypes takes at least the size that is reckoned with for inner ones. -/
theorem Prototype.consumes_reader
    {header : Header}
    (hvalid : header.Valid) :
    Consumes header.leastPrototypeSize (Prototype.reader header) :=
  fun cursor => Prototype.consumes_read hvalid cursor.remaining cursor

/--
A list that is announced to have `count` elements, and the bytes that are unread
behind its length.  The inner prototypes are read by `inner`, and with a ledger by
`meteredInner`.
-/
structure Section.WithinUnread
    (header : Header)
    (kind : Section)
    (inner : Reader Prototype)
    (meteredInner : Metered Prototype)
    (start cursor : Cursor)
    (count : Nat) : Prop where
  least_pos : 0 < kind.least header
  /-- An element that is read takes the least size. -/
  element : ∀ before x after, kind.element header inner before = .ok x after →
    after.remaining + kind.least header ≤ before.remaining
  /-- A list that is read to its end fits in the unread bytes. -/
  ended : ∀ items last, kind.read header inner start = .ok items last →
    items.length = count ∧ InTurn (kind.element header inner) items cursor last ∧
      count ≤ cursor.remaining / kind.least header
  /-- A list that does not fit ends at an element that fails, when the bytes are used up. -/
  overlong : cursor.remaining / kind.least header < count →
    ∃ items middle error last,
      items.length ≤ cursor.remaining / kind.least header ∧
      InTurn (kind.element header inner) items cursor middle ∧
      kind.element header inner middle = .error error last ∧
      kind.read header inner start = .error error last
  /--
  The list asks once for room, before its elements are read: for as many places as
  were announced, or as the unread bytes can hold if these are fewer.  Requests that
  follow are made by inner prototypes.
  -/
  asked : ∀ requests, ∃ further,
    kind.read header meteredInner ⟨start, requests⟩ =
      entered (requests ++
        ⟨min count (cursor.remaining / kind.least header), cursor.remaining⟩ :: further)
        (kind.read header inner start) ∧
    ∀ request ∈ further, kind = .children ∧ request.Bounded header
  /-- A list that is read to its end has asked for as many places as it has elements. -/
  asked_eq : ∀ items last, kind.read header inner start = .ok items last →
    min count (cursor.remaining / kind.least header) = count

/-- Lists are bounded by the unread bytes if inner prototypes take their least size. -/
theorem Section.withinUnread
    {header : Header}
    (hvalid : header.Valid)
    {inner : Reader Prototype}
    {meteredInner : Metered Prototype}
    (hconsumes : Consumes header.leastPrototypeSize inner)
    (haccounts : Prototype.Accounted header meteredInner inner)
    (kind : Section)
    {start cursor : Cursor}
    {count : Nat}
    (hcount : readCount header start = .ok count cursor) :
    kind.WithinUnread header inner meteredInner start cursor count := by
  have hpos := kind.least_pos hvalid
  have helement := kind.consumes_element hvalid hconsumes
  have hread : kind.read header inner start =
      listOf count (kind.least header) (kind.element header inner) cursor := bind_of_ok hcount
  have hended : ∀ items last, kind.read header inner start = .ok items last →
      items.length = count ∧ InTurn (kind.element header inner) items cursor last ∧
        count ≤ cursor.remaining / kind.least header := by
    rw [hread]
    exact fun items last hlast => inTurn_of_listOf hvalid hconsumes hlast
  refine ⟨hpos, helement, hended, fun hmany => ?_, fun requests => ?_,
    fun items last hlast => Nat.min_eq_left (hended items last hlast).2.2⟩
  · rw [hread]
    obtain ⟨found, next, -, hlength, hturn⟩ | ⟨found, middle, error, last, hlist, -, hturn, hfails⟩ :=
      listOf_cases (kind.element header inner) count (kind.least header) cursor
    · have hmost := hturn.length_le helement hpos
      omega
    · exact ⟨found, middle, error, last, hturn.length_le helement hpos, hturn, hfails, hlist⟩
  · obtain ⟨further, hrun, hfurther, -⟩ := kind.metered_read haccounts hcount requests
    rw [kind.reservation_eq hvalid] at hrun
    exact ⟨further, hrun, hfurther⟩

/--
The lists of a prototype against the unread bytes, with the least sizes of their
elements.  This holds of lists whose inner prototypes are read to any depth, and
of those for which a bound on the depth is kept as well.

Prototypes are read by recursion over these lists, with a ledger and without one,
and the recursion goes to cursors with fewer unread bytes only.  With a ledger a
prototype is read as without one; no request in it is for more than the unread
bytes can hold of some list, and if it is read to its end, the requests are the
lengths of its lists.
-/
theorem Section.read_within_unread
    (header : Header)
    (hvalid : header.Valid) :
    (Section.instructions.least header = 4 ∧
      Section.constants.least header = 1 ∧
      Section.children.least header =
        header.sizeWidth.toNat + 8 * header.intWidth.toNat + 4 ∧
      Section.lines.least header = header.intWidth.toNat ∧
      Section.locals.least header = header.sizeWidth.toNat + 2 * header.intWidth.toNat ∧
      Section.upvalueNames.least header = header.sizeWidth.toNat) ∧
    (∀ (kind : Section) (start cursor : Cursor) (count : Nat),
      readCount header start = .ok count cursor →
        kind.WithinUnread header (Prototype.reader header) (Prototype.reader header)
          start cursor count ∧
        ∀ depth,
          kind.WithinUnread header (Prototype.read header depth) (Prototype.read header depth)
            start cursor count) ∧
    (Prototype.reader header : Reader Prototype) =
      (do
        let sourceName ← readString header
        Prototype.readBody header (Section.read header (Prototype.reader header)) sourceName) ∧
    (∀ depth,
      (Prototype.read header (depth + 1) : Metered Prototype) =
        (do
          let sourceName ← readString header
          Prototype.readBody header (Section.read header (Prototype.read header depth))
            sourceName)) ∧
    (∀ (inner : Reader Prototype) (cursor : Cursor),
      (∀ below : Cursor, below.remaining < cursor.remaining →
        inner below = (Prototype.reader header : Reader Prototype) below) →
      (do
        let sourceName ← readString header
        Prototype.readBody header (Section.read header inner) sourceName :
          Reader Prototype) cursor =
        (Prototype.reader header : Reader Prototype) cursor) ∧
    Accounts (RoomRequest.Bounded header) (Prototype.reader header) (Prototype.reader header)
      fun tree asked => asked = tree.listLengths := by
  have haccounts := Prototype.accounts_reader hvalid
  refine ⟨⟨hvalid.instructionWidth_eq, rfl, rfl, rfl, rfl, rfl⟩,
    fun kind start cursor count hcount => ⟨?_, fun depth => ?_⟩, Prototype.reader_eq hvalid,
    fun _ => rfl, fun inner cursor hinner => Prototype.reader_of_inner hvalid hinner, haccounts⟩
  · exact kind.withinUnread hvalid (Prototype.consumes_reader hvalid) haccounts hcount
  · exact kind.withinUnread hvalid (Prototype.consumes_read hvalid depth)
      (Prototype.accounts_read hvalid depth) hcount

/-- A header with integers of one byte and lengths of one byte. -/
def Section.narrowHeader : Header :=
  ⟨0x51, 0, .little, 1, 1, 4, 8, false⟩

/--
Under such a header, two constants in three bytes are read to the end, and room is
asked for two.  Two hundred prototypes that are announced in front of three bytes
end in an error, and no room is asked for them.
-/
theorem Section.narrowHeader_within_unread :
    narrowHeader.Valid ∧
    (∃ items last,
      (Section.read narrowHeader (Prototype.reader narrowHeader) .constants :
          Metered (List Constant)) ⟨⟨30, [2, 0, 0, 7], .little⟩, []⟩ =
        .ok items ⟨last, [⟨2, 3⟩]⟩ ∧
      items.length = 2) ∧
    ∃ error last further,
      (Section.read narrowHeader (Prototype.reader narrowHeader) .children :
          Metered (List Prototype)) ⟨⟨30, [200, 1, 2, 3], .little⟩, []⟩ =
        .error error ⟨last, ⟨0, 3⟩ :: further⟩ := by
  have hvalid : narrowHeader.Valid := by
    constructor <;> decide
  obtain ⟨-, hlists, -⟩ := Section.read_within_unread narrowHeader hvalid
  refine ⟨hvalid, ?_, ?_⟩
  · have hbounds := (hlists .constants ⟨30, [2, 0, 0, 7], .little⟩ ⟨31, [0, 0, 7], .little⟩ 2
      rfl).1
    have hread : (Section.read narrowHeader (Prototype.reader narrowHeader) .constants :
        Reader (List Constant)) ⟨30, [2, 0, 0, 7], .little⟩ =
          .ok [.nil, .nil] ⟨33, [7], .little⟩ := rfl
    obtain ⟨further, hrun, hfurther⟩ := hbounds.asked []
    obtain rfl : further = [] :=
      List.eq_nil_iff_forall_not_mem.2 fun request hmem => nomatch (hfurther request hmem).1
    rw [hread, hbounds.asked_eq _ _ hread] at hrun
    exact ⟨_, _, hrun, (hbounds.ended _ _ hread).1⟩
  · have hbounds := (hlists .children ⟨30, [200, 1, 2, 3], .little⟩ ⟨31, [1, 2, 3], .little⟩ 200
      rfl).1
    obtain ⟨_, _, error, last, -, -, -, hfails⟩ := hbounds.overlong (by decide)
    obtain ⟨further, hrun, -⟩ := hbounds.asked []
    rw [hfails] at hrun
    exact ⟨error, last, further, hrun⟩

end LuaBytecode
