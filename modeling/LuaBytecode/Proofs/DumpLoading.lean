import LuaBytecode.Chunk.Load
import LuaBytecode.Proofs.Flattening

/-!
# Parts of a chunk from their values

Each part of a chunk is loaded from the value that it is dumped as, provided that
the loader may open all arrays and objects of that value.  Lists, records and
choices carry this from their parts to the whole, so that nothing is left to show
of a part but what its own fields are.

**Results.**
* `Json.Numeral.toInt?_ofText?_toString`: integers in text.
* `Loader.loads_list`, `loads_record`, `loads_choice_tagged`: from parts to wholes.
* `Prototype.loads`, `Chunk.loads`: trees of functions, and chunks.
-/

namespace LuaBytecode

open Json (Value Member)

/-! ## Integers in text -/

namespace Json.Numeral

/-- The digits of a number that is not 0 do not begin with 0. -/
theorem head?_toDigits
    {number : Nat}
    (h : number ≠ 0) :
    (Nat.toDigits 10 number).head? ≠ some '0' := by
  induction number using Nat.strongRecOn with
  | ind number ih =>
      rw [Nat.toDigits_eq_if (by decide)]
      split
      next hdigit =>
          simpa using h
      next hlarge =>
          rw [List.head?_append, Option.or_of_isSome
            (List.isSome_head?.2 Nat.toDigits_ne_nil)]
          exact ih (number / 10) (by omega) (by omega)

/-- The digits of a natural number are a whole part as a numeral may have it. -/
theorem validWhole_toDigits
    (number : Nat) :
    validWhole (Nat.toDigits 10 number) = true := by
  by_cases h : number = 0
  · subst h
    decide
  · have hne : Nat.toDigits 10 number ≠ [] := Nat.toDigits_ne_nil
    have hhead := head?_toDigits h
    cases hdigits : Nat.toDigits 10 number with
    | nil =>
        exact absurd hdigits hne
    | cons char rest =>
        rw [hdigits, List.head?_cons] at hhead
        have hzero : char ≠ '0' := fun hsame => hhead (congrArg some hsame)
        simp [validWhole, hzero]

theorem isDigit_toDigits
    (number : Nat) :
    ∀ char ∈ Nat.toDigits 10 number, char.isDigit = true :=
  fun _ hchar => Nat.isDigit_of_mem_toDigits (by decide) (by decide) hchar

/-- Nothing is left over of the digits of a natural number. -/
theorem digits_toDigits
    (number : Nat) :
    digits (Nat.toDigits 10 number) = (Nat.toDigits 10 number, []) := by
  have hall := isDigit_toDigits number
  have htake : (Nat.toDigits 10 number ++ []).takeWhile Char.isDigit = _ :=
    List.takeWhile_append_of_pos hall
  have hdrop : (Nat.toDigits 10 number ++ []).dropWhile Char.isDigit = _ :=
    List.dropWhile_append_of_pos hall
  rw [List.append_nil] at htake hdrop
  rw [digits, htake, hdrop]
  simp

/-- The digits of a natural number are a numeral without sign, fraction and exponent. -/
theorem ofText?_toDigits
    (number : Nat) :
    ofText? (Nat.toDigits 10 number) = some ⟨false, Nat.toDigits 10 number, none, none⟩ := by
  have hunsigned : ∀ rest, Nat.toDigits 10 number ≠ '-' :: rest := by
    intro rest hrest
    have hminus := isDigit_toDigits number '-' (hrest ▸ List.mem_cons_self)
    exact absurd hminus (by decide)
  unfold ofText?
  split
  next hsign =>
      split at hsign
      next rest hrest =>
          exact absurd hrest (hunsigned rest)
      next =>
          cases hsign
          simp only [digits_toDigits, validWhole_toDigits]
          rfl

theorem ofText?_minus_toDigits
    (number : Nat) :
    ofText? ('-' :: Nat.toDigits 10 number) =
      some ⟨true, Nat.toDigits 10 number, none, none⟩ := by
  rw [ofText?]
  simp only [digits_toDigits, validWhole_toDigits]
  rfl

/-- An integer in full is the numeral of that integer. -/
theorem toInt?_ofText?_toString
    (number : Int) :
    (ofText? (toString number).toList).bind toInt? = some number := by
  cases number with
  | ofNat size =>
      have htext : (toString (Int.ofNat size)).toList = Nat.toDigits 10 size := Nat.toList_repr
      rw [htext, ofText?_toDigits]
      simp [toInt?, digitsValue, Nat.ofDigitChars_ten_toDigits]
  | negSucc below =>
      have htext : (toString (Int.negSucc below)).toList = '-' :: Nat.toDigits 10 (below + 1) := by
        rw [← Nat.toList_repr]
        exact String.toList_append
      rw [htext, ofText?_minus_toDigits]
      simp [toInt?, digitsValue, Nat.ofDigitChars_ten_toDigits]
      omega

end Json.Numeral

/-! ## Nesting -/

namespace Json.Value

mutual

/-- How deep arrays and objects are nested in a value. -/
def nesting :
    Value → Nat
  | .array items => itemsNesting items + 1
  | .object members => membersNesting members + 1
  | _ => 0

/-- How deep arrays and objects are nested in several values. -/
def itemsNesting :
    List Value → Nat
  | [] => 0
  | item :: rest => max (nesting item) (itemsNesting rest)

/-- How deep arrays and objects are nested in several members. -/
def membersNesting :
    List Member → Nat
  | [] => 0
  | (_, value) :: rest => max (nesting value) (membersNesting rest)

end

/-- Several values are nested no deeper than a bound if none of them is. -/
theorem itemsNesting_le_iff
    {items : List Value}
    {bound : Nat} :
    itemsNesting items ≤ bound ↔ ∀ item ∈ items, item.nesting ≤ bound := by
  induction items with
  | nil =>
      simp [itemsNesting]
  | cons item rest ih =>
      rw [itemsNesting, Nat.max_le, ih, List.forall_mem_cons]

/-- The names of members do not add to the nesting. -/
theorem membersNesting_zip
    {names : List String}
    {values : List Value}
    (h : names.length = values.length) :
    membersNesting ((names.map some).zip values) = itemsNesting values := by
  induction names generalizing values with
  | nil =>
      rw [List.length_nil] at h
      rw [List.eq_nil_of_length_eq_zero h.symm, itemsNesting]
      rfl
  | cons name names ih =>
      cases values with
      | nil =>
          cases h
      | cons value values =>
          rw [List.map_cons, List.zip_cons_cons, membersNesting, itemsNesting,
            ih (Nat.succ.inj h)]

/-- A record is one level deeper than its members. -/
theorem nesting_record
    {names : List String}
    {values : List Value}
    (h : names.length = values.length) :
    (record names values).nesting = itemsNesting values + 1 := by
  rw [record, nesting, membersNesting_zip h]

theorem nesting_tagged
    (tag : String)
    (content : Value) :
    (tagged tag content).nesting = content.nesting + 1 := by
  rw [tagged, nesting, membersNesting, membersNesting, Nat.max_zero]

end Json.Value

/-! ## Loaders -/

namespace Loader

variable {α : Type}

/-- A value from which a loader makes the given result, if it may open all of its levels. -/
def Loads
    (loader : Loader α)
    (value : Value)
    (result : α) : Prop :=
  ∀ left, value.nesting ≤ left → loader left value = some result

/-- What is loaded may be changed afterwards. -/
theorem Loads.map
    {β : Type}
    {loader : Loader α}
    {value : Value}
    {result : α}
    (h : loader.Loads value result)
    (change : α → β) :
    Loads (fun left value => change <$> loader left value) value (change result) :=
  fun left hleft => congrArg (Option.map change) (h left hleft)

theorem loads_text
    (content : String) :
    text.Loads (.text content) content :=
  fun _ _ => rfl

theorem loads_bool
    (content : Bool) :
    bool.Loads (.bool content) content :=
  fun _ _ => rfl

/-- An integer is loaded if it lies between the bounds of its type. -/
theorem loads_int
    {low high content : Int}
    (hlow : low ≤ content)
    (hhigh : content ≤ high) :
    (int low high).Loads (.int content) content := by
  intro left _
  obtain ⟨numeral, htext, hinteger⟩ :=
    Option.bind_eq_some_iff.1 (Json.Numeral.toInt?_ofText?_toString content)
  have hguard : guard (low ≤ content ∧ content ≤ high) = some () :=
    if_pos ⟨hlow, hhigh⟩
  simp only [int, Value.int, htext, hinteger, hguard, bind, Option.bind_some]
  rfl

/-- A natural number is loaded if it has few enough bits. -/
theorem loads_nat
    {width content : Nat}
    (h : content < 2 ^ width) :
    (nat width).Loads (.nat content) content := by
  have hbound : (content : Int) ≤ 2 ^ width - 1 := by
    have : (content : Int) < 2 ^ width := by exact_mod_cast h
    omega
  exact (loads_int (Int.natCast_nonneg content) hbound).map Int.toNat

theorem loads_uint8
    (content : UInt8) :
    uint8.Loads (.nat content.toNat) content := by
  have h := (loads_nat content.toNat_lt).map UInt8.ofNat
  rw [UInt8.ofNat_toNat] at h
  exact h

theorem loads_uint16
    (content : UInt16) :
    uint16.Loads (.nat content.toNat) content := by
  have h := (loads_nat content.toNat_lt).map UInt16.ofNat
  rw [UInt16.ofNat_toNat] at h
  exact h

theorem loads_uint32
    (content : UInt32) :
    uint32.Loads (.nat content.toNat) content := by
  have h := (loads_nat content.toNat_lt).map UInt32.ofNat
  rw [UInt32.ofNat_toNat] at h
  exact h

theorem loads_int32
    (content : Int32) :
    int32.Loads (.int content.toInt) content := by
  have h := (loads_int content.le_toInt (Int.le_sub_one_of_lt content.toInt_lt)).map Int32.ofInt
  rw [Int32.ofInt_toInt] at h
  exact h

theorem loads_int64
    (content : Int64) :
    int64.Loads (.int content.toInt) content := by
  have h := (loads_int content.le_toInt (Int.le_sub_one_of_lt content.toInt_lt)).map Int64.ofInt
  rw [Int64.ofInt_toInt] at h
  exact h

/-- Values are loaded one by one, each with the levels that are left. -/
theorem mapM_loads
    {item : Loader α}
    {write : α → Value}
    {contents : List α}
    {left : Nat}
    (h : ∀ content ∈ contents, item.Loads (write content) content)
    (hleft : ∀ value ∈ contents.map write, value.nesting ≤ left) :
    (contents.map write).mapM (item left) = some contents := by
  induction contents with
  | nil =>
      rfl
  | cons content rest ih =>
      rw [List.map_cons, List.forall_mem_cons] at hleft
      rw [List.forall_mem_cons] at h
      rw [List.map_cons, List.mapM_cons, h.1 left hleft.1, ih h.2 hleft.2]
      rfl

/-- A list is loaded if each of its elements is; it uses up one level. -/
theorem loads_list
    {item : Loader α}
    {write : α → Value}
    {contents : List α}
    (h : ∀ content ∈ contents, item.Loads (write content) content) :
    (list item).Loads (.array (contents.map write)) contents := by
  intro left hleft
  rw [Value.nesting] at hleft
  obtain ⟨left, rfl⟩ := Nat.exists_eq_add_of_le' (Nat.le_of_add_left_le hleft)
  have hitems := Value.itemsNesting_le_iff.1 (Nat.le_of_add_le_add_right hleft)
  exact mapM_loads h hitems

/-! ### Records -/

/-- A member is found by a name that no other member has. -/
theorem member?_of_unique
    {front back : List Member}
    {name : String}
    {value : Value}
    (hfront : ∀ member ∈ front, member.1 ≠ some name)
    (hback : ∀ member ∈ back, member.1 ≠ some name) :
    member? (front ++ (some name, value) :: back) name = some value := by
  have hfront' : front.filter (fun member => member.1 == some name) = [] := by
    simpa [List.filter_eq_nil_iff] using hfront
  have hback' : back.filter (fun member => member.1 == some name) = [] := by
    simpa [List.filter_eq_nil_iff] using hback
  simp [member?, hfront', hback']

/-- The values of members are found by their names, `front` being the members already passed. -/
theorem mapM_member?
    {names : List String}
    {values : List Value}
    (hlength : names.length = values.length)
    (hnames : names.Nodup) :
    ∀ (front : List Member), (∀ member ∈ front, ∀ name ∈ names, member.1 ≠ some name) →
      names.mapM (member? (front ++ (names.map some).zip values)) = some values := by
  induction names generalizing values with
  | nil =>
      intro front _
      rw [List.length_nil] at hlength
      rw [List.eq_nil_of_length_eq_zero hlength.symm]
      rfl
  | cons name names ih =>
      intro front hfront
      cases values with
      | nil =>
          cases hlength
      | cons value values =>
          rw [List.nodup_cons] at hnames
          have hback : ∀ member ∈ (names.map some).zip values, member.1 ≠ some name := by
            rintro ⟨other, _⟩ hmember rfl
            exact hnames.1 (by simpa using (List.of_mem_zip hmember).1)
          have hrest := ih (Nat.succ.inj hlength) hnames.2 (front ++ [(some name, value)]) (by
            intro member hmember other hother
            obtain hmember | hmember := List.mem_append.1 hmember
            · exact hfront member hmember other (List.mem_cons_of_mem _ hother)
            · rw [List.mem_singleton] at hmember
              rintro hsame
              rw [hmember, Option.some.injEq] at hsame
              exact hnames.1 (hsame ▸ hother))
          rw [List.append_assoc, List.singleton_append] at hrest
          rw [List.map_cons, List.zip_cons_cons, List.mapM_cons,
            member?_of_unique (fun member hmember => hfront member hmember name
              List.mem_cons_self) hback, hrest]
          rfl

/-- A record has the values that it was made from. -/
theorem memberValues?_record
    {names : List String}
    {values : List Value}
    (hlength : names.length = values.length)
    (hnames : names.Nodup) :
    memberValues? names (.record names values) = some values := by
  have hkeys : (((names.map some).zip values).all fun member => member.1.isSome) = true := by
    rw [List.all_eq_true]
    rintro ⟨key, _⟩ hmember
    obtain ⟨name, -, rfl⟩ := List.mem_map.1 (List.of_mem_zip hmember).1
    rfl
  have hvalues := mapM_member? hlength hnames [] (fun _ hmember => absurd hmember List.not_mem_nil)
  rw [Value.record, memberValues?, hkeys]
  exact hvalues

/-- A record is loaded if it can be made from the values of its members. -/
theorem loads_record
    {names : List String}
    {values : List Value}
    {make : Nat → List Value → Option α}
    {result : α}
    (hlength : names.length = values.length)
    (hnames : names.Nodup)
    (h : ∀ left, (∀ value ∈ values, value.nesting ≤ left) → make left values = some result) :
    (record names make).Loads (.record names values) result := by
  intro left hleft
  rw [Value.nesting_record hlength] at hleft
  obtain ⟨left, rfl⟩ := Nat.exists_eq_add_of_le' (Nat.le_of_add_left_le hleft)
  rw [record, memberValues?_record hlength hnames]
  exact h left (Value.itemsNesting_le_iff.1 (Nat.le_of_add_le_add_right hleft))

/-! ### Choices -/

/-- A choice without content is loaded from its name. -/
theorem loads_choice_plain
    {plain : String → Option α}
    {tagged : String → Loader α}
    {name : String}
    {result : α}
    (h : plain name = some result) :
    (choice plain tagged).Loads (.text name) result := by
  intro left _
  rw [Value.text, choice]
  exact h

/-- A choice with content is loaded from an object with one member; it uses up one level. -/
theorem loads_choice_tagged
    {plain : String → Option α}
    {tagged : String → Loader α}
    {name : String}
    {content : Value}
    {result : α}
    (hcontent : content ≠ .null)
    (h : (tagged name).Loads content result) :
    (choice plain tagged).Loads (.tagged name content) result := by
  intro left hleft
  rw [Value.nesting_tagged] at hleft
  obtain ⟨left, rfl⟩ := Nat.exists_eq_add_of_le' (Nat.le_of_add_left_le hleft)
  rw [Value.tagged, choice]
  · exact h left (Nat.le_of_add_le_add_right hleft)
  · exact hcontent

end Loader

open Loader

/-! ## Parts of a chunk -/

theorem ByteOrder.loads
    (order : ByteOrder) :
    ByteOrder.ofJson?.Loads order.toJson order := by
  cases order with
  | big =>
      exact loads_choice_plain rfl
  | little =>
      exact loads_choice_plain rfl

theorem Header.loads
    (header : Header) :
    Header.ofJson?.Loads header.toJson header := by
  refine loads_record rfl (by decide) fun left hleft => ?_
  simp only [List.forall_mem_cons] at hleft
  obtain ⟨h₁, h₂, h₃, h₄, h₅, h₆, h₇, h₈, -⟩ := hleft
  simp only [loads_uint8 _ left h₁, loads_uint8 _ left h₂, header.order.loads left h₃,
    loads_uint8 _ left h₄, loads_uint8 _ left h₅, loads_uint8 _ left h₆, loads_uint8 _ left h₇,
    loads_bool _ left h₈]
  rfl

/--
A finite number whose text is the numeral of that number; any other is named.  A
numeral is read in two roundings, so that of a number with many digits may come
out as a neighbour.
-/
def Double.ReadsBack :
    Double → Prop
  | .finite negative magnitude =>
      (Json.Numeral.ofText? (DecimalStyle.scaled.finiteText negative magnitude).toList).bind
          Json.Numeral.toDouble? =
        some (.finite negative magnitude)
  | _ => True

/-- The text of a finite number, sign first, is read back as it. -/
theorem Double.finite_readsBack_iff
    {negative : Bool}
    {magnitude : Fin 0x7FF0000000000000} :
    (finite negative magnitude).ReadsBack ↔
      (Json.Numeral.ofText?
          (if negative then
            '-' :: DecimalStyle.scaled.magnitudeText magnitude
          else
            DecimalStyle.scaled.magnitudeText magnitude)).bind Json.Numeral.toDouble? =
        some (.finite negative magnitude) := by
  rw [ReadsBack, DecimalStyle.finiteText, String.toList_ofList]

/-- A number that is not finite is loaded by its name. -/
theorem Double.loads
    {value : Double}
    (h : value.ReadsBack) :
    Double.ofJson?.Loads value.toJson value := by
  intro left _
  cases value with
  | nan =>
      rfl
  | infinite negative =>
      cases negative <;> rfl
  | finite negative magnitude =>
      exact h

/-- A constant is loaded from its dump if it is no number, or one that is read back. -/
theorem Constant.loads
    {constant : Constant}
    (h : ∀ value, constant = .number value → value.ReadsBack) :
    Constant.ofJson?.Loads constant.toJson constant := by
  cases constant with
  | nil =>
      exact loads_choice_plain rfl
  | bool value =>
      exact loads_choice_tagged Value.noConfusion ((loads_bool value).map Constant.bool)
  | number value =>
      refine loads_choice_tagged ?_ ((Double.loads (h value rfl)).map Constant.number)
      cases value <;> exact Value.noConfusion
  | string value =>
      exact loads_choice_tagged Value.noConfusion ((loads_text value).map Constant.string)

theorem VarargFlags.loads
    (flags : VarargFlags) :
    VarargFlags.ofJson?.Loads flags.toJson flags :=
  (loads_uint8 flags.bits).map VarargFlags.mk

/-- Every label of the table is the label of its own operation only. -/
theorem Opcode.ofLabel?_label :
    ∀ entry ∈ table, ofLabel? entry.label = some entry.opcode := by
  decide

/-- An operation is loaded by its label, and one without a label by its code. -/
theorem Opcode.loads
    (op : Opcode) :
    Opcode.ofJson?.Loads op.toJson op := by
  rw [toJson]
  cases hentry : op.description? with
  | some entry =>
      have hopcode : entry.opcode = op := by
        simpa using List.find?_some hentry
      rw [label?, hentry, ← hopcode]
      exact loads_choice_plain (ofLabel?_label entry (List.mem_of_find?_eq_some hentry))
  | none =>
      have hunknown : op = .unknown op.code := by
        cases op with
        | unknown code =>
            rfl
        | _ =>
            cases hentry
      rw [label?, hentry, hunknown]
      exact loads_choice_tagged Value.noConfusion ((loads_uint8 op.code).map Opcode.unknown)

theorem Operand.loads
    (operand : Operand) :
    Operand.ofJson?.Loads operand.toJson operand := by
  cases operand with
  | abc b c =>
      refine loads_choice_tagged Value.noConfusion ?_
      refine loads_record rfl (by decide) fun left hleft => ?_
      simp only [List.forall_mem_cons] at hleft
      obtain ⟨hb, hc, -⟩ := hleft
      simp only [loads_uint16 _ left hb, loads_uint16 _ left hc]
      rfl
  | bx index =>
      exact loads_choice_tagged Value.noConfusion ((loads_uint32 index).map Operand.bx)
  | sbx offset =>
      exact loads_choice_tagged Value.noConfusion ((loads_int32 offset).map Operand.sbx)

theorem Instruction.loads
    (ins : Instruction) :
    Instruction.ofJson?.Loads ins.toJson ins := by
  refine loads_record rfl (by decide) fun left hleft => ?_
  simp only [List.forall_mem_cons] at hleft
  obtain ⟨hraw, hop, ha, hoperand, -⟩ := hleft
  simp only [loads_uint32 _ left hraw, ins.op.loads left hop, loads_uint8 _ left ha,
    ins.operand.loads left hoperand]
  rfl

theorem LocalVariable.loads
    (entry : LocalVariable) :
    LocalVariable.ofJson?.Loads entry.toJson entry := by
  refine loads_record rfl (by decide) fun left hleft => ?_
  simp only [List.forall_mem_cons] at hleft
  obtain ⟨hname, hstart, hend, -⟩ := hleft
  simp only [loads_text _ left hname, loads_int64 _ left hstart, loads_int64 _ left hend]
  rfl

/-! ## Trees -/

/-- A function whose finite constants are read back from their text. -/
def FunctionInfo.ReadsBack
    (info : FunctionInfo) : Prop :=
  ∀ value, Constant.number value ∈ info.constants → value.ReadsBack

namespace Prototype

/--
A function is loaded with those defined in it.  It uses up one level itself, and
another one for the list in which these stand.
-/
theorem loads_node
    {info : FunctionInfo}
    {children : List Prototype}
    (hinfo : info.ReadsBack)
    (hchildren : ∀ left, (∀ value ∈ toJsonAll children, value.nesting ≤ left) →
      (toJsonAll children).mapM (Prototype.ofJson? left) = some children) :
    Prototype.ofJson?.Loads (Prototype.node info children).toJson (.node info children) := by
  intro left hleft
  have hlength : memberNames.length = (infoValues info (toJsonAll children)).length := rfl
  rw [toJson, infoToJson, Value.nesting_record hlength] at hleft
  obtain ⟨outer, rfl⟩ := Nat.exists_eq_add_of_le' (Nat.le_of_add_left_le hleft)
  have hvalues := Value.itemsNesting_le_iff.1 (Nat.le_of_add_le_add_right hleft)
  simp only [infoValues, List.forall_mem_cons] at hvalues
  obtain ⟨hsource, hline, hlastLine, hupvalues, hparameters, hvararg, hstack, hinstructions,
    hconstants, hinner, hlines, hlocals, hnames, -⟩ := hvalues
  rw [Value.nesting] at hinner
  obtain ⟨inner, rfl⟩ := Nat.exists_eq_add_of_le' (Nat.le_of_add_left_le hinner)
  have hinner := Value.itemsNesting_le_iff.1 (Nat.le_of_add_le_add_right hinner)
  rw [toJson, infoToJson, ofJson?, memberValues?_record hlength (by decide)]
  have hconstants : list Constant.ofJson? (inner + 1) (.array (info.constants.map Constant.toJson)) =
      some info.constants :=
    loads_list (fun _ hconstant => Constant.loads fun value hvalue =>
      hinfo value (hvalue ▸ hconstant)) _ hconstants
  rw [infoValues, Option.bind_eq_bind, Option.bind_some]
  dsimp only
  rw [loads_text _ _ hsource, loads_int64 _ _ hline, loads_int64 _ _ hlastLine,
    loads_uint8 _ _ hupvalues, loads_uint8 _ _ hparameters, info.vararg.loads _ hvararg,
    loads_uint8 _ _ hstack, loads_list (fun ins _ => Instruction.loads ins) _ hinstructions,
    hconstants, loads_list (fun line _ => loads_int64 line) _ hlines,
    loads_list (fun entry _ => LocalVariable.loads entry) _ hlocals,
    loads_list (fun name _ => loads_text name) _ hnames, hchildren inner hinner]
  rfl

mutual

/-- A tree is loaded from the value that it is dumped as. -/
theorem loads :
    ∀ tree : Prototype, (∀ info ∈ preorder tree, info.ReadsBack) →
      Prototype.ofJson?.Loads tree.toJson tree
  | .node info children, h => by
      rw [preorder, List.forall_mem_cons] at h
      exact loads_node h.1 (loadsAll children h.2)

/-- Trees are loaded one by one. -/
theorem loadsAll :
    ∀ trees : List Prototype, (∀ info ∈ preorderAll trees, info.ReadsBack) →
      ∀ left, (∀ value ∈ toJsonAll trees, value.nesting ≤ left) →
        (toJsonAll trees).mapM (Prototype.ofJson? left) = some trees
  | [], _, _, _ => by
      rw [toJsonAll]
      rfl
  | tree :: rest, h, left, hleft => by
      rw [preorderAll, List.forall_mem_append] at h
      rw [toJsonAll, List.forall_mem_cons] at hleft
      rw [toJsonAll, List.mapM_cons, loads tree h.1 left hleft.1, loadsAll rest h.2 left hleft.2]
      rfl

end
end Prototype

/-- A chunk is loaded from the value that it is dumped as. -/
theorem Chunk.loads
    {chunk : Chunk}
    (h : ∀ info ∈ chunk.main.preorder, info.ReadsBack) :
    Chunk.ofJson?.Loads chunk.toJson chunk := by
  refine loads_record rfl (by decide) fun left hleft => ?_
  simp only [List.forall_mem_cons] at hleft
  obtain ⟨hheader, hmain, -⟩ := hleft
  simp only [chunk.header.loads left hheader, Prototype.loads chunk.main h left hmain]
  rfl

end LuaBytecode
