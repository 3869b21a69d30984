import LuaBytecode.Proofs.PrototypeRecursion

/-!
# Room that is asked for

A list asks for room before its elements are read, and its length comes from the
file.  The readers of lists and of prototypes are the same for every computation
that can read and ask for room.  Here they are run with a ledger, which keeps each
request with the number of bytes that were unread at that moment.  Without the
ledger such a run is the plain one.

A whole run asks in the order in which the lists stand in the file: for each list
once, before its elements, and between them for what is in inner prototypes.

**Results.**
* `Accounts.bind`, `Accounts.collect`: runs with a ledger, part by part.
* `Section.metered_read`: the request of a list, and those of its elements.
* `Prototype.accounts_read`: a prototype that is read has asked for the lengths of
  its lists.
-/

namespace LuaBytecode

open Reader

/-! ## Readers with a ledger -/

/-- A request for room, and how many bytes were unread when it was made. -/
structure RoomRequest where
  places : Nat
  unread : Nat
  deriving DecidableEq

/-- A cursor, and the requests that were made on the way to it. -/
structure Ledger where
  cursor : Cursor
  requests : List RoomRequest

/-- A computation that takes bytes from a cursor and keeps the requests that it makes. -/
abbrev Metered := EStateM ReadError Ledger

/-- A plain result, and the requests that were made on the way to it. -/
def entered
    {α : Type}
    (requests : List RoomRequest) :
    EStateM.Result ReadError Cursor α → EStateM.Result ReadError Ledger α
  | .ok x next => .ok x ⟨next, requests⟩
  | .error error last => .error error ⟨last, requests⟩

/-- A plain reader asks for nothing. -/
instance : MonadLift Reader Metered where
  monadLift reader := fun ledger => entered ledger.requests (reader ledger.cursor)

/-- A request is entered behind the others. -/
instance : Reserving Metered where
  room places := fun ledger =>
    .ok (Array.emptyWithCapacity places)
      { ledger with
        requests := ledger.requests ++ [⟨places, ledger.cursor.remaining⟩] }

/-- A request for no more than what some list of prototypes can hold in the unread bytes. -/
def RoomRequest.Bounded
    (header : Header)
    (request : RoomRequest) : Prop :=
  ∃ kind : Section, request.places ≤ request.unread / kind.least header

/--
A run with a ledger does what the plain reader does.  The requests that it adds
are allowed ones, and after a success the places they ask for are as stated.
-/
def Accounts
    {α : Type}
    (Allowed : RoomRequest → Prop)
    (metered : Metered α)
    (plain : Reader α)
    (Asked : α → List Nat → Prop) : Prop :=
  ∀ (cursor : Cursor) (requests : List RoomRequest), ∃ added,
    metered ⟨cursor, requests⟩ = entered (requests ++ added) (plain cursor) ∧
    (∀ request ∈ added, Allowed request) ∧
    ∀ x next, plain cursor = .ok x next → Asked x (added.map RoomRequest.places)

namespace Accounts

variable {α β : Type} {Allowed : RoomRequest → Prop}

/-- More may be allowed, and less be said of what was asked for. -/
theorem imp
    {metered : Metered α}
    {plain : Reader α}
    {Permitted : RoomRequest → Prop}
    {Asked Total : α → List Nat → Prop}
    (h : Accounts Allowed metered plain Asked)
    (hallowed : ∀ request, Allowed request → Permitted request)
    (hasked : ∀ x asked, Asked x asked → Total x asked) :
    Accounts Permitted metered plain Total := by
  intro cursor requests
  obtain ⟨added, hrun, hadded, hplaces⟩ := h cursor requests
  exact ⟨added, hrun, fun request hmem => hallowed request (hadded request hmem),
    fun x next hok => hasked x _ (hplaces x next hok)⟩

/-- A plain reader adds nothing to a ledger. -/
theorem lift
    {reader : Reader α}
    {Asked : α → List Nat → Prop}
    (hasked : ∀ cursor x next, reader cursor = .ok x next → Asked x []) :
    Accounts Allowed (liftM reader) reader Asked := by
  intro cursor requests
  refine ⟨[], ?_, fun _ hmem => absurd hmem List.not_mem_nil, hasked cursor⟩
  rw [List.append_nil]
  rfl

theorem pure
    {x : α}
    {Asked : α → List Nat → Prop}
    (hasked : Asked x []) :
    Accounts Allowed (pure x) (pure x) Asked := by
  change Accounts Allowed (liftM (Pure.pure x : Reader α)) _ _
  refine lift ?_
  rintro cursor _ _ ⟨⟩
  exact hasked

/-- The requests of two readers in sequence stand one behind the other. -/
theorem bind
    {metered : Metered α}
    {plain : Reader α}
    {follow : α → Metered β}
    {plainFollow : α → Reader β}
    {Asked : α → List Nat → Prop}
    {Total : β → List Nat → Prop}
    (h : Accounts Allowed metered plain Asked)
    (hfollow : ∀ x, Accounts Allowed (follow x) (plainFollow x)
      fun y late => ∀ early, Asked x early → Total y (early ++ late)) :
    Accounts Allowed (metered >>= follow) (plain >>= plainFollow) Total := by
  intro cursor requests
  obtain ⟨early, hrun, hearly, hasks⟩ := h cursor requests
  cases hplain : plain cursor with
  | error error last =>
      refine ⟨early, ?_, hearly, ?_⟩
      · rw [hplain] at hrun
        rw [bind_of_error hplain]
        simp only [Bind.bind, EStateM.bind, hrun, entered]
      · rw [bind_of_error hplain]
        rintro y next ⟨⟩
  | ok x next =>
      obtain ⟨late, hlate, hallowed, htotal⟩ := hfollow x next (requests ++ early)
      refine ⟨early ++ late, ?_, ?_, ?_⟩
      · rw [hplain] at hrun
        rw [bind_of_ok hplain, ← List.append_assoc, ← hlate]
        simp only [Bind.bind, EStateM.bind, hrun, entered]
      · intro request hmem
        exact (List.mem_append.1 hmem).elim (hearly request) (hallowed request)
      · intro y last hok
        rw [bind_of_ok hplain] at hok
        rw [List.map_append]
        exact htotal y last hok _ (hasks x next hplain)

/-- What is read before does not show in a ledger. -/
theorem lift_bind
    (reader : Reader α)
    {follow : α → Metered β}
    {plainFollow : α → Reader β}
    {Total : β → List Nat → Prop}
    (hfollow : ∀ x, Accounts Allowed (follow x) (plainFollow x) Total) :
    Accounts Allowed (liftM reader >>= follow) (reader >>= plainFollow) Total := by
  have hreader : Accounts Allowed (liftM reader) reader fun _ asked => asked = [] :=
    lift fun _ _ _ _ => rfl
  refine bind hreader fun x => (hfollow x).imp (fun _ hallowed => hallowed) ?_
  rintro y late htotal _ rfl
  exact htotal

/-- The requests of the elements of a list stand one behind the other. -/
theorem collect
    {element : Metered α}
    {plain : Reader α}
    {asks : α → List Nat}
    (h : Accounts Allowed element plain fun x asked => asked = asks x)
    (count : Nat)
    (done : Array α) :
    Accounts Allowed (Reader.collect element count done) (Reader.collect plain count done)
      fun items asked => ∃ more : List α, items = done ++ more ∧ asked = more.flatMap asks := by
  induction count generalizing done with
  | zero =>
      exact pure ⟨[], by simp⟩
  | succ count ih =>
      refine bind h fun x => (ih (done.push x)).imp (fun _ hallowed => hallowed) ?_
      rintro items asked ⟨more, rfl, rfl⟩ _ rfl
      exact ⟨x :: more, by simp⟩

end Accounts

/-! ## Lists -/

theorem Reader.lift_bind_of_ok
    {α β : Type}
    {reader : Reader α}
    {follow : α → Metered β}
    {cursor next : Cursor}
    {x : α}
    (h : reader cursor = .ok x next)
    (requests : List RoomRequest) :
    (liftM reader >>= follow) ⟨cursor, requests⟩ = follow x ⟨next, requests⟩ := by
  have hlift : (liftM reader : Metered α) ⟨cursor, requests⟩ = .ok x ⟨next, requests⟩ :=
    congrArg (entered requests) h
  simp only [bind, EStateM.bind, hlift]

/-- A list enters its request, and then its elements are read. -/
theorem Reader.listOf_ledger
    {α : Type}
    (count : Nat)
    (least : Nat)
    (element : Metered α)
    (cursor : Cursor)
    (requests : List RoomRequest) :
    listOf count least element ⟨cursor, requests⟩ =
      (do
        let elements ← collect element count #[]
        return elements.toList : Metered (List α))
        ⟨cursor, requests ++
          [⟨reservation count least cursor.remaining, cursor.remaining⟩]⟩ := rfl

namespace Prototype

mutual

/-- The lengths of the lists of a tree, in the order in which the lists stand in a file. -/
def listLengths :
    Prototype → List Nat
  | .node info children =>
      [info.instructions.length, info.constants.length, children.length] ++
        allListLengths children ++
        [info.lineInfo.length, info.locals.length, info.upvalueNames.length]

/-- The same of trees one after the other. -/
def allListLengths :
    List Prototype → List Nat
  | [] => []
  | tree :: rest => listLengths tree ++ allListLengths rest

end

theorem allListLengths_eq
    (trees : List Prototype) :
    allListLengths trees = trees.flatMap listLengths := by
  induction trees with
  | nil =>
      rw [allListLengths, List.flatMap_nil]
  | cons tree rest ih =>
      rw [allListLengths, ih, List.flatMap_cons]

/-- A reader of prototypes that asks for no more than can be held, and for the lengths of lists. -/
def Accounted
    (header : Header)
    (inner : Metered Prototype)
    (plain : Reader Prototype) : Prop :=
  Accounts (RoomRequest.Bounded header) inner plain fun tree asked => asked = tree.listLengths

end Prototype

namespace Section

/-- The lengths of the lists in the elements of a list. -/
def innerLengths :
    (kind : Section) → List kind.Element → List Nat
  | .children, trees => Prototype.allListLengths trees
  | _, _ => []

theorem innerLengths_eq
    (kind : Section)
    (items : List kind.Element) :
    kind.innerLengths items = items.flatMap fun x => kind.innerLengths [x] := by
  cases kind with
  | children =>
      simp [innerLengths, Prototype.allListLengths_eq]
  | instructions | constants | lines | locals | upvalueNames =>
      simp [innerLengths]

variable {header : Header} {inner : Metered Prototype} {plain : Reader Prototype}

/-- Only prototypes ask for anything among the elements of lists. -/
theorem accounts_element
    (hinner : Prototype.Accounted header inner plain)
    (kind : Section) :
    Accounts (fun request => kind = .children ∧ request.Bounded header)
      (kind.element header inner) (kind.element header plain)
      fun x asked => asked = kind.innerLengths [x] := by
  cases kind with
  | children =>
      refine hinner.imp (fun _ hbounded => ⟨rfl, hbounded⟩) ?_
      rintro tree _ rfl
      simp [innerLengths, Prototype.allListLengths_eq]
  | instructions | constants | lines | locals | upvalueNames =>
      exact Accounts.lift fun _ _ _ _ => rfl

/-- The list behind a length: its own request, and then those of its elements. -/
theorem accounts_listOf
    (hinner : Prototype.Accounted header inner plain)
    (kind : Section)
    (count : Nat)
    (least : Nat)
    (cursor : Cursor)
    (requests : List RoomRequest) :
    ∃ further,
      listOf count least (kind.element header inner) ⟨cursor, requests⟩ =
        entered (requests ++
          ⟨reservation count least cursor.remaining, cursor.remaining⟩ :: further)
          (listOf count least (kind.element header plain) cursor) ∧
      (∀ request ∈ further, kind = .children ∧ request.Bounded header) ∧
      ∀ items last, listOf count least (kind.element header plain) cursor = .ok items last →
        further.map RoomRequest.places = kind.innerLengths items := by
  have hlist : Accounts (fun request => kind = .children ∧ request.Bounded header)
      (do return (← collect (kind.element header inner) count #[]).toList)
      (do return (← collect (kind.element header plain) count #[]).toList)
      fun items asked => asked = kind.innerLengths items := by
    refine ((accounts_element hinner kind).collect count #[]).bind fun elements =>
      Accounts.pure ?_
    rintro _ ⟨items, rfl, rfl⟩
    rw [innerLengths_eq]
    simp
  obtain ⟨further, hrun, hfurther⟩ := hlist cursor
    (requests ++ [⟨reservation count least cursor.remaining, cursor.remaining⟩])
  refine ⟨further, ?_, hfurther⟩
  rw [listOf_ledger, hrun, List.append_assoc]
  rfl

/--
A list asks for room once before its elements are read, and what is asked for
after that is asked for by inner prototypes.
-/
theorem metered_read
    (hinner : Prototype.Accounted header inner plain)
    (kind : Section)
    {start cursor : Cursor}
    {count : Nat}
    (hcount : readCount header start = .ok count cursor)
    (requests : List RoomRequest) :
    ∃ further,
      kind.read header inner ⟨start, requests⟩ =
        entered (requests ++
          ⟨reservation count (kind.least header) cursor.remaining, cursor.remaining⟩ :: further)
          (kind.read header plain start) ∧
      (∀ request ∈ further, kind = .children ∧ request.Bounded header) ∧
      ∀ items last, kind.read header plain start = .ok items last →
        further.map RoomRequest.places = kind.innerLengths items := by
  have hmetered : kind.read header inner ⟨start, requests⟩ =
      listOf count (kind.least header) (kind.element header inner) ⟨cursor, requests⟩ :=
    lift_bind_of_ok hcount requests
  have hplain : kind.read header plain start =
      listOf count (kind.least header) (kind.element header plain) cursor :=
    bind_of_ok hcount
  rw [hmetered, hplain]
  exact accounts_listOf hinner kind count (kind.least header) cursor requests

variable (hvalid : header.Valid)
include hvalid

/-- A count that the unread bytes cannot hold is not believed. -/
theorem reservation_eq
    (kind : Section)
    (count : Nat)
    (left : Nat) :
    reservation count (kind.least header) left = min count (left / kind.least header) := by
  rw [reservation, Nat.max_eq_left (kind.least_pos hvalid)]

/-- What is asked for a list that is read to its end is its length. -/
theorem reservation_of_listOf
    (hconsumes : Consumes header.leastPrototypeSize plain)
    {kind : Section}
    {count : Nat}
    {cursor next : Cursor}
    {items : List kind.Element}
    (h : listOf count (kind.least header) (kind.element header plain) cursor = .ok items next) :
    reservation count (kind.least header) cursor.remaining = items.length := by
  obtain ⟨hlength, -, hmost⟩ := inTurn_of_listOf hvalid hconsumes h
  rw [reservation_eq hvalid, Nat.min_eq_left hmost, hlength]

/-- A list that is read asks for its length. -/
theorem accounts_read
    (hinner : Prototype.Accounted header inner plain)
    (hconsumes : Consumes header.leastPrototypeSize plain)
    (kind : Section) :
    Accounts (RoomRequest.Bounded header) (kind.read header inner) (kind.read header plain)
      fun items asked => asked = items.length :: kind.innerLengths items := by
  refine Accounts.lift_bind (readCount header) fun count cursor requests => ?_
  obtain ⟨further, hrun, hfurther, hplaces⟩ :=
    accounts_listOf hinner kind count (kind.least header) cursor requests
  refine ⟨_, hrun, ?_, fun items last hread => ?_⟩
  · rintro request (_ | ⟨_, hmem⟩)
    · exact ⟨kind, (reservation_eq hvalid kind count _).trans_le (Nat.min_le_right _ _)⟩
    · exact (hfurther request hmem).2
  · rw [List.map_cons, hplaces items last hread, reservation_of_listOf hvalid hconsumes hread]

end Section

/-! ## Prototypes -/

namespace Prototype

variable {header : Header}

/-- A prototype asks for what its lists ask for. -/
theorem accounts_readBody
    {list : (kind : Section) → Metered (List kind.Element)}
    {plain : (kind : Section) → Reader (List kind.Element)}
    (hlist : ∀ kind, Accounts (RoomRequest.Bounded header) (list kind) (plain kind)
      fun items asked => asked = items.length :: kind.innerLengths items)
    (sourceName : String) :
    Accounted header (readBody header list sourceName) (readBody header plain sourceName) := by
  refine Accounts.lift_bind _ fun _ => Accounts.lift_bind _ fun _ => ?_
  refine Accounts.lift_bind _ fun _ => Accounts.lift_bind _ fun _ => ?_
  refine Accounts.lift_bind _ fun _ => Accounts.lift_bind _ fun _ => ?_
  refine (hlist .instructions).bind fun _ => (hlist .constants).bind fun _ => ?_
  refine (hlist .children).bind fun _ => (hlist .lines).bind fun _ => ?_
  refine (hlist .locals).bind fun _ => (hlist .upvalueNames).bind fun _ => Accounts.pure ?_
  rintro _ rfl _ rfl _ rfl _ rfl _ rfl _ rfl
  simp [listLengths, Section.innerLengths]

/-- A prototype that is read has asked for the lengths of its lists. -/
theorem accounts_read
    (hvalid : header.Valid)
    (depth : Nat) :
    Accounted header (read header depth) (read header depth) := by
  induction depth with
  | zero =>
      refine Accounts.lift ?_
      rintro cursor tree next ⟨⟩
  | succ depth ih =>
      exact Accounts.lift_bind (readString header) fun sourceName =>
        accounts_readBody (Section.accounts_read hvalid ih (consumes_read hvalid depth)) sourceName

theorem accounts_reader
    (hvalid : header.Valid) :
    Accounted header (reader header) (reader header) :=
  Accounts.lift_bind remaining fun left => accounts_read hvalid left

end Prototype
end LuaBytecode
