import LuaBytecode.Listing
import Mathlib.Tactic

/-!
# Writing to a sink

How a text is cut into writes makes no difference: writing two texts one after
the other is writing them as one, also where the room ends within one of them.
Whatever writes a list of texts therefore is a single write.

**Results.**
* `Sink.writeText_append`: two writes are one.
* `Listing.write_eq`: a listing is written as one text.
-/

namespace LuaBytecode
namespace Sink

/-! ## Room -/

/-- A sink that takes `count` more bytes. -/
def HasRoom
    (sink : Sink)
    (count : Nat) : Prop :=
  ∀ limit, sink.limit = some limit → count ≤ limit

/-- A sink after bytes that it had room for. -/
def append
    (sink : Sink)
    (bytes : ByteArray) : Sink :=
  { sink with
    stored := sink.stored ++ bytes
    limit := sink.limit.map fun limit => limit - bytes.size }

/-- A sink that had room for `limit` bytes, after more than that. -/
def fill
    (sink : Sink)
    (limit : Nat)
    (bytes : ByteArray) : Sink :=
  { sink with
    stored := sink.stored ++ bytes.extract 0 limit
    limit := some 0 }

/-- A sink has room for a number of bytes, or its limit is lower. -/
theorem hasRoom_or_lt
    (sink : Sink)
    (count : Nat) :
    sink.HasRoom count ∨ ∃ limit, sink.limit = some limit ∧ limit < count := by
  by_cases h : sink.HasRoom count
  · exact .inl h
  · rw [HasRoom] at h
    push Not at h
    exact .inr h

theorem append_empty
    (sink : Sink) :
    sink.append ByteArray.empty = sink := by
  have hlimit : sink.limit.map (fun limit => limit - ByteArray.empty.size) = sink.limit := by
    cases sink.limit <;> rfl
  rw [append, hlimit, ByteArray.append_empty]

theorem append_append
    (sink : Sink)
    (first second : ByteArray) :
    (sink.append first).append second = sink.append (first ++ second) := by
  simp only [append, ByteArray.append_assoc, ByteArray.size_append, Option.map_map,
    Function.comp_def, Nat.sub_sub]

/-- What is stored comes off the limit. -/
theorem limit_append
    {sink : Sink}
    {limit : Nat}
    (bytes : ByteArray)
    (h : sink.limit = some limit) :
    (sink.append bytes).limit = some (limit - bytes.size) := by
  rw [append, h]
  rfl

theorem HasRoom.of_limit
    {sink : Sink}
    {count limit : Nat}
    (h : sink.limit = some limit)
    (hfits : count ≤ limit) :
    sink.HasRoom count := by
  intro other hother
  rw [h] at hother
  cases hother
  exact hfits

theorem HasRoom.mono
    {sink : Sink}
    {first second : Nat}
    (h : sink.HasRoom second)
    (hle : first ≤ second) :
    sink.HasRoom first :=
  fun limit hlimit => hle.trans (h limit hlimit)

/-- Room for two writes is room for the second one after the first. -/
theorem HasRoom.append
    {sink : Sink}
    {bytes : ByteArray}
    {count : Nat}
    (h : sink.HasRoom (bytes.size + count)) :
    (sink.append bytes).HasRoom count := by
  intro limit hlimit
  rw [Sink.append, Option.map_eq_some_iff] at hlimit
  obtain ⟨before, hbefore, rfl⟩ := hlimit
  have := h before hbefore
  omega

/-! ## Writes -/

/-- A write that fits is stored whole. -/
theorem write_of_hasRoom
    {sink : Sink}
    {bytes : ByteArray}
    (h : sink.HasRoom bytes.size) :
    write bytes sink = .ok () (sink.append bytes) := by
  cases hlimit : sink.limit with
  | none =>
      simp only [write, append, hlimit, Option.map_none]
  | some limit =>
      simp only [write, append, hlimit, if_pos (h limit hlimit), Option.map_some]

/-- A write that does not fit fills the sink up and fails. -/
theorem write_of_lt
    {sink : Sink}
    {limit : Nat}
    {bytes : ByteArray}
    (h : sink.limit = some limit)
    (hfull : limit < bytes.size) :
    write bytes sink = .error .full (sink.fill limit bytes) := by
  simp only [write, fill, h, if_neg (Nat.not_le.2 hfull)]

theorem write_empty :
    write ByteArray.empty = pure () := by
  funext sink
  have hroom : sink.HasRoom ByteArray.empty.size := fun limit _ => Nat.zero_le limit
  rw [write_of_hasRoom hroom, append_empty]
  rfl

/-- The part of two byte strings that fits is the first and a part of the second. -/
theorem fill_append_of_le
    (sink : Sink)
    {limit : Nat}
    {first : ByteArray}
    (second : ByteArray)
    (h : first.size ≤ limit) :
    sink.fill limit (first ++ second) =
      (sink.append first).fill (limit - first.size) second := by
  have hmax : max limit first.size = limit := Nat.max_eq_left h
  have hfirst : first.extract 0 limit = first := by
    rw [← hmax, ByteArray.extract_zero_max_size]
  simp only [fill, append, ByteArray.extract_append, hfirst, Nat.zero_sub,
    ByteArray.append_assoc]

/-- Or it is a part of the first. -/
theorem fill_append_of_lt
    (sink : Sink)
    {limit : Nat}
    {first : ByteArray}
    (second : ByteArray)
    (h : limit < first.size) :
    sink.fill limit (first ++ second) = sink.fill limit first := by
  have hnone : limit - first.size = 0 := by omega
  simp only [fill, ByteArray.extract_append, hnone, Nat.zero_sub, ByteArray.extract_same,
    ByteArray.append_empty]

/-- Two writes are one, whether or not there is room for them. -/
theorem write_append
    (first second : ByteArray) :
    write (first ++ second) = (do write first; write second) := by
  have hsize : (first ++ second).size = first.size + second.size := ByteArray.size_append
  funext sink
  rcases sink.hasRoom_or_lt (first ++ second).size with hroom | ⟨limit, hlimit, hfull⟩
  · rw [write_of_hasRoom hroom]
    rw [hsize] at hroom
    have hfirst := hroom.mono (Nat.le_add_right _ _)
    simp only [bind, EStateM.bind, write_of_hasRoom hfirst, write_of_hasRoom hroom.append,
      append_append]
  · rw [write_of_lt hlimit hfull]
    rcases Nat.lt_or_ge limit first.size with hcut | hfits
    · simp only [bind, EStateM.bind, write_of_lt hlimit hcut, fill_append_of_lt sink second hcut]
    · have hfirst := HasRoom.of_limit hlimit hfits
      have hlater : limit - first.size < second.size := by omega
      simp only [bind, EStateM.bind, write_of_hasRoom hfirst,
        write_of_lt (limit_append first hlimit) hlater, fill_append_of_le sink second hfits]

theorem byteSink_writeText
    (text : String) :
    (ByteSink.writeText text : EStateM SinkError Sink Unit) = writeText text := rfl

theorem writeText_empty :
    writeText "" = pure () :=
  write_empty

/-- Two texts are written as one: a cut falls at the same byte. -/
theorem writeText_append
    (first second : String) :
    writeText (first ++ second) = (do writeText first; writeText second) := by
  rw [writeText, String.toUTF8_eq_toByteArray, String.toByteArray_append, write_append]
  rfl

end Sink

/-! ## Listings -/

namespace Listing

/-- The text of named functions, with an empty line before each. -/
def followingText
    (functions : List (String × FunctionInfo)) : String :=
  String.join (functions.map fun entry => "\n" ++ String.join (functionLines entry.1 entry.2))

/-- The text of named functions, with an empty line between them. -/
def functionsText :
    List (String × FunctionInfo) → String
  | [] => ""
  | (name, info) :: rest => String.join (functionLines name info) ++ followingText rest

/-- The text of the listing of a tree. -/
def text
    (main : Prototype) : String :=
  functionsText (walk 0 [main])

theorem followingText_cons
    (name : String)
    (info : FunctionInfo)
    (rest : List (String × FunctionInfo)) :
    followingText ((name, info) :: rest) =
      "\n" ++ String.join (functionLines name info) ++ followingText rest := by
  rw [followingText, List.map_cons, String.join_cons]
  rfl

/-- Lines are written as the text that they are together. -/
theorem writeAll_eq
    (texts : List String) :
    writeAll texts = Sink.writeText (String.join texts) := by
  induction texts with
  | nil =>
      exact Sink.writeText_empty.symm
  | cons text rest ih =>
      rw [writeAll, ih, Sink.byteSink_writeText, String.join_cons, Sink.writeText_append]

/-- Listed functions are written as one text. -/
theorem writeFollowing_eq
    (functions : List (String × FunctionInfo)) :
    writeFollowing functions = Sink.writeText (followingText functions) := by
  induction functions with
  | nil =>
      exact Sink.writeText_empty.symm
  | cons entry rest ih =>
      obtain ⟨name, info⟩ := entry
      rw [writeFollowing, ih, writeAll_eq, Sink.byteSink_writeText, followingText_cons,
        Sink.writeText_append, Sink.writeText_append, bind_assoc]

/-- A listing is written as one text. -/
theorem write_eq
    (main : Prototype) :
    write main = Sink.writeText (text main) := by
  rw [write, text]
  cases walk 0 [main] with
  | nil =>
      exact Sink.writeText_empty.symm
  | cons entry rest =>
      rw [writeFunctions, functionsText, writeAll_eq, writeFollowing_eq, Sink.writeText_append]

end Listing
end LuaBytecode
