import LuaBytecode.Proofs.BoundedSink
import LuaBytecode.Proofs.WrittenLines

/-!
# Bytes that are read back as text

Text goes to a sink in many pieces, each in UTF-8, and is read back from the bytes
as a whole, where whatever is no text is replaced.  Pieces end where characters
end, so all that a rendering stores are the bytes of one text, of which nothing is
replaced, also where the rendering fails.  The ways to render a chunk to a text
and to a sink therefore agree.

**Results.**
* `Utf8.decode_toUTF8`: the bytes of a text are read as that text.
* `Utf8.toUTF8_decode_eq_iff`: all other bytes are changed by being read.
* `decompile_eq_map`, `Prototype.pseudocode_eq_map`: texts against sinks.
* `renderings_lossless`: all ways to render a chunk or a tree.
-/

namespace LuaBytecode

/-! ## Reading text -/

namespace Utf8

/-- Where the bytes of a character begin, that character is read. -/
theorem utf8DecodeChar?_append_cons
    (front : ByteArray)
    (char : Char)
    (rest : List Char) :
    (front ++ (char :: rest).utf8Encode).utf8DecodeChar? front.size = some char := by
  rw [ByteArray.utf8DecodeChar?_eq_utf8DecodeChar?_extract,
    ByteArray.extract_append_eq_right rfl ByteArray.size_append]
  exact List.utf8DecodeChar?_utf8Encode_cons

/-- Behind the bytes of the text that was read stand those of the characters still to read. -/
theorem decodeOnto_append
    (text : String)
    (chars : List Char) :
    decodeOnto text (text.toByteArray ++ chars.utf8Encode) text.toByteArray.size =
      text ++ String.ofList chars := by
  induction chars generalizing text with
  | nil =>
      have hend : ¬ text.toByteArray.size < (text.toByteArray ++ [].utf8Encode).size := by
        simp
      rw [decodeOnto, if_neg hend, String.ofList_nil, String.append_empty]
  | cons char rest ih =>
      have hpush : (text.push char).toByteArray = text.toByteArray ++ [char].utf8Encode := by
        rw [String.push_eq_append, String.toByteArray_append, String.singleton_eq_ofList,
          String.toByteArray_ofList]
      have hsize : [char].utf8Encode.size = char.utf8Size := by
        rw [List.utf8Encode_singleton, List.size_toByteArray, String.length_utf8EncodeChar]
      have hplace : (text.push char).toByteArray.size = text.toByteArray.size + char.utf8Size := by
        rw [hpush, ByteArray.size_append, hsize]
      have hbytes : text.toByteArray ++ (char :: rest).utf8Encode =
          (text.push char).toByteArray ++ rest.utf8Encode := by
        rw [hpush, List.utf8Encode_cons, ByteArray.append_assoc]
      have hmore : text.toByteArray.size <
          (text.toByteArray ++ (char :: rest).utf8Encode).size := by
        have hwidth := char.utf8Size_pos
        rw [hbytes, ByteArray.size_append, hplace]
        omega
      have hnext := ih (text.push char)
      rw [decodeOnto, if_pos hmore, utf8DecodeChar?_append_cons]
      rw [← hbytes, hplace] at hnext
      rw [String.ofList_cons, ← String.append_assoc, ← String.push_eq_append]
      exact hnext

/-- The bytes of a text are read as that text. -/
theorem decode_toUTF8
    (text : String) :
    decode text.toUTF8 = text := by
  have h := decodeOnto_append "" text.toList
  rw [String.utf8Encode_toList, String.ofList_toList, String.empty_append] at h
  rw [decode, String.toUTF8_eq_toByteArray]
  simpa using h

/-- Bytes are kept by being read as text if, and only if, they are text. -/
theorem toUTF8_decode_eq_iff
    (bytes : ByteArray) :
    (decode bytes).toUTF8 = bytes ↔ bytes.IsValidUTF8 := by
  constructor
  · intro h
    rw [← h]
    exact String.isValidUTF8 _
  · rintro ⟨chars, rfl⟩
    rw [← String.toByteArray_ofList, ← String.toUTF8_eq_toByteArray, decode_toUTF8]

/-- A character that breaks off is replaced as one. -/
example : decode ⟨#[0x41, 0xE2, 0x82, 0x42]⟩ = "A\uFFFDB" := by cbv

end Utf8

/-! ## Sinks that hold a text -/

/-- The bytes of a sink are those of a text, and they are read as it. -/
structure Sink.Holds
    (sink : Sink)
    (text : String) : Prop where
  stored : sink.stored = text.toUTF8
  read : sink.text = text

theorem Sink.Holds.of_stored
    {sink : Sink}
    {text : String}
    (h : sink.stored = text.toUTF8) :
    sink.Holds text where
  stored := h
  read := by rw [Sink.text, h, Utf8.decode_toUTF8]

theorem Sink.Holds.append_unlimited
    (text : String) :
    (Sink.unlimited.append text.toUTF8).Holds text :=
  .of_stored ByteArray.empty_append

open Rendering PseudocodeWriter

theorem Chunk.holds_write
    (options : Options)
    (chunk : Chunk) :
    (sinkAfter (chunk.write options) .unlimited).Holds (chunk.text options) :=
  .of_stored (chunk.stored_unlimited options)

/-! ## Chunks -/

section Chunks

variable (options : Options) {bytes : List UInt8}

theorem decompileTo_of_read
    {σ : Type}
    [ByteSink σ]
    {chunk : Chunk}
    (h : Chunk.read bytes = .ok chunk) :
    (decompileTo options bytes : RenderingTo σ Unit) = chunk.write options := by
  rw [decompileTo, h]

theorem decompileTo_of_read_error
    {σ : Type}
    [ByteSink σ]
    {error : ReadError}
    (h : Chunk.read bytes = .error error) :
    (decompileTo options bytes : RenderingTo σ Unit) = throw (.read error) := by
  rw [decompileTo, h]

/-- Bytes that are no chunk leave a sink as it was. -/
theorem exists_holds_decompileTo
    (bytes : List UInt8) :
    ∃ text, (sinkAfter (decompileTo options bytes) .unlimited).Holds text := by
  cases hread : Chunk.read bytes with
  | ok chunk =>
      rw [decompileTo_of_read options hread]
      exact ⟨_, chunk.holds_write options⟩
  | error error =>
      rw [decompileTo_of_read_error options hread]
      exact ⟨"", .of_stored rfl⟩

/-- The text of a rendering is the one that its sink holds, and the errors are the same. -/
theorem decompile_eq_map
    {text : String}
    (h : (sinkAfter (decompileTo options bytes) .unlimited).Holds text) :
    decompile options bytes =
      (resultOn (decompileTo options bytes) .unlimited).map fun _ => text := by
  have hread := h.read
  rw [sinkAfter] at hread
  rw [decompile, resultOn]
  cases hrun : decompileTo options bytes Sink.unlimited with
  | ok _ sink =>
      rw [hrun] at hread
      exact congrArg Except.ok hread
  | error error sink =>
      rfl

theorem decompile_of_read
    {chunk : Chunk}
    (h : Chunk.read bytes = .ok chunk) :
    decompile options bytes = (chunk.result options).map fun _ => chunk.text options := by
  have hholds := chunk.holds_write options
  rw [← decompileTo_of_read options h] at hholds
  rw [decompile_eq_map options hholds, decompileTo_of_read options h, chunk.result_unlimited]

theorem decompile_of_read_error
    {error : ReadError}
    (h : Chunk.read bytes = .error error) :
    decompile options bytes = .error (.read error) := by
  rw [decompile, decompileTo_of_read_error options h]
  rfl

end Chunks

/-! ## Trees -/

namespace Prototype

variable (main : Prototype)

theorem holds_writeChunk
    (listConstants : Bool) :
    (outcome (writeChunk main (.new Sink.unlimited listConstants))).2.Holds
      (pseudocodeText listConstants main) := by
  rw [outcome_writeChunk_unlimited]
  exact .append_unlimited _

theorem pseudocode_eq_map
    (listConstants : Bool) :
    main.pseudocode listConstants =
      (outcome (writeChunk main (.new Sink.unlimited listConstants))).1.map
        fun _ => pseudocodeText listConstants main := by
  rw [pseudocode_eq_outcome_map, (main.holds_writeChunk listConstants).read]

/-- A tree is rendered as every chunk is whose main prototype it is. -/
theorem pseudocode_eq_result_map
    (header : Header)
    (listConstants : Bool) :
    main.pseudocode listConstants =
      (Chunk.result ⟨.pseudo, listConstants⟩ ⟨header, main⟩).map
        fun _ => Chunk.text ⟨.pseudo, listConstants⟩ ⟨header, main⟩ := by
  have hresult : Chunk.result ⟨.pseudo, listConstants⟩ ⟨header, main⟩ =
      runResult (failure? (main.flatten listConstants)) := by
    rw [Chunk.result]
    cases failure? (main.flatten listConstants) <;> rfl
  rw [hresult, pseudocode_eq_map, outcome_writeChunk_unlimited]
  rfl

theorem listing_write_unlimited :
    Listing.write main Sink.unlimited =
      .ok () (Sink.unlimited.append (Listing.text main).toUTF8) := by
  rw [Listing.write_eq]
  exact Sink.write_of_hasRoom (Chunk.hasRoom_unlimited _)

/-- Every tree has a listing. -/
theorem listing_eq :
    main.listing = .ok (Listing.text main) := by
  rw [listing, main.listing_write_unlimited]
  exact congrArg Except.ok (Sink.Holds.append_unlimited (Listing.text main)).read

theorem exists_holds_listing :
    ∃ sink text,
      Listing.write main Sink.unlimited = .ok () sink ∧
      sink.Holds text ∧
      main.listing = .ok text :=
  ⟨_, _, main.listing_write_unlimited, .append_unlimited _, main.listing_eq⟩

end Prototype

/-- To read a chunk and render its tree is to render the bytes. -/
theorem pseudocode_of_readPrototype
    (bytes : List UInt8)
    (listConstants : Bool) :
    (do
      let main ← (readPrototype bytes).mapError Error.read
      main.pseudocode listConstants) =
        decompile ⟨.pseudo, listConstants⟩ bytes := by
  rw [readPrototype]
  cases hread : Chunk.read bytes with
  | ok chunk =>
      rw [decompile_of_read _ hread]
      exact chunk.main.pseudocode_eq_result_map chunk.header listConstants
  | error error =>
      rw [decompile_of_read_error _ hread]
      rfl

/--
A chunk is rendered as pseudocode in four ways, with one result: its tree is read
and rendered, its bytes are rendered to a text, under the standard options too, or
they are rendered into a sink that takes everything.

In every mode, and for every tree, whatever texts are in it, such a sink holds the
bytes of a text, which is what they are read as; if the rendering succeeds it is
the text of the rendering, and otherwise both fail with one error.
-/
theorem renderings_lossless :
    (∀ (bytes : List UInt8) (listConstants : Bool),
      (do
        let main ← (readPrototype bytes).mapError Error.read
        main.pseudocode listConstants) =
          decompile ⟨.pseudo, listConstants⟩ bytes) ∧
    (∀ bytes : List UInt8, decompileStandard bytes = decompile ⟨.pseudo, false⟩ bytes) ∧
    (∀ (bytes : List UInt8) (options : Options), ∃ text,
      (sinkAfter (decompileTo options bytes) .unlimited).Holds text ∧
      decompile options bytes =
        (resultOn (decompileTo options bytes) .unlimited).map fun _ => text) ∧
    (∀ (chunk : Chunk) (options : Options), ∃ text,
      (sinkAfter (chunk.write options) .unlimited).Holds text) ∧
    (∀ (main : Prototype) (listConstants : Bool), ∃ text,
      let run := outcome (writeChunk main (.new Sink.unlimited listConstants))
      run.2.Holds text ∧ main.pseudocode listConstants = run.1.map fun _ => text) ∧
    (∀ main : Prototype, ∃ sink text,
      Listing.write main Sink.unlimited = .ok () sink ∧
      sink.Holds text ∧
      main.listing = .ok text) := by
  refine ⟨pseudocode_of_readPrototype, fun _ => rfl, fun bytes options => ?_,
    fun chunk options => ⟨_, chunk.holds_write options⟩, fun main listConstants => ?_,
    fun main => main.exists_holds_listing⟩
  · obtain ⟨text, htext⟩ := exists_holds_decompileTo options bytes
    exact ⟨text, htext, decompile_eq_map options htext⟩
  · exact ⟨_, main.holds_writeChunk listConstants, main.pseudocode_eq_map listConstants⟩

end LuaBytecode
