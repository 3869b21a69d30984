import LuaBytecode.Proofs.PseudocodeText

/-!
# Rendering into a sink that fills up

A rendering into a sink that takes only so many bytes is compared with one into
a sink that takes all.  What is stored is the first part of what the latter
holds.  A sink that fills up is what is reported, also where the rendering would
have ended in another error later, since that error comes behind everything that
is written.

**Results.**
* `Rendering.Delivers.bind`: renderings in sequence.
* `Chunk.delivers_writeBody`: the three modes.
* `Chunk.write_limited`: a limited and an unlimited run.
-/

namespace LuaBytecode

namespace Rendering

/-- Ends with the given result and leaves the sink as it is. -/
def conclude
    {σ : Type}
    (result : Except Error Unit) : RenderingTo σ Unit :=
  fun sink =>
    match result with
    | .ok () => .ok () sink
    | .error error => .error error sink

/-- The sink that a rendering leaves. -/
def sinkAfter
    (rendering : Rendering Unit)
    (sink : Sink) : Sink :=
  match rendering sink with
  | .ok () reached => reached
  | .error _ reached => reached

/-- The result of a rendering. -/
def resultOn
    (rendering : Rendering Unit)
    (sink : Sink) : Except Error Unit :=
  match rendering sink with
  | .ok () _ => .ok ()
  | .error error _ => .error error

/--
A rendering that stores `bytes` and then ends with `result`.  If there is room
for `limit` bytes only it stores these and fails with `full limit`.
-/
structure Delivers
    (rendering : Rendering Unit)
    (bytes : ByteArray)
    (result : Except Error Unit)
    (full : Nat → Error) : Prop where
  fits : ∀ sink : Sink, sink.HasRoom bytes.size →
    rendering sink = conclude result (sink.append bytes)
  cut : ∀ (sink : Sink) (limit : Nat), sink.limit = some limit → limit < bytes.size →
    rendering sink = .error (full limit) (sink.fill limit bytes)

namespace Delivers

variable {first second : Rendering Unit} {bytes others : ByteArray}
variable {result : Except Error Unit} {full : Nat → Error}

/-- A write, whose failure is reported in the given way. -/
theorem write
    (reportSink : SinkError → Error)
    (hfull : ∀ limit, limit < bytes.size → full limit = reportSink .full) :
    Delivers (reporting reportSink (Sink.write bytes)) bytes (.ok ()) full := by
  constructor
  · intro sink hroom
    rw [reporting, Sink.write_of_hasRoom hroom]
    rfl
  · intro sink limit hlimit hcut
    rw [reporting, Sink.write_of_lt hlimit hcut, hfull limit hcut]

/-- A rendering that stores nothing. -/
theorem of_conclusion
    (h : ∀ sink, first sink = conclude result sink) :
    Delivers first ByteArray.empty result full := by
  constructor
  · intro sink _
    rw [h, Sink.append_empty]
  · intro sink limit _ hcut
    exact absurd hcut (Nat.not_lt_zero limit)

/-- Renderings in sequence; the second finds the room that the first leaves. -/
theorem bind
    (h : Delivers first bytes (.ok ()) full)
    (h' : Delivers second others result fun limit => full (bytes.size + limit)) :
    Delivers (do first; second) (bytes ++ others) result full := by
  have hsize : (bytes ++ others).size = bytes.size + others.size := ByteArray.size_append
  constructor
  · intro sink hroom
    rw [hsize] at hroom
    have hfirst := h.fits sink (hroom.mono (Nat.le_add_right _ _))
    have hsecond := h'.fits (sink.append bytes) hroom.append
    simp only [Bind.bind, EStateM.bind, hfirst, conclude]
    rw [hsecond, Sink.append_append]
    rfl
  · intro sink limit hlimit hcut
    rcases Nat.lt_or_ge limit bytes.size with hearly | hfits
    · have hfirst := h.cut sink limit hlimit hearly
      simp only [Bind.bind, EStateM.bind, hfirst, Sink.fill_append_of_lt sink others hearly]
    · have hroom := Sink.HasRoom.of_limit hlimit hfits
      have hlater : limit - bytes.size < others.size := by omega
      have hsecond := h'.cut _ _ (Sink.limit_append bytes hlimit) hlater
      simp only [Bind.bind, EStateM.bind, h.fits sink hroom, conclude]
      rw [hsecond, Sink.fill_append_of_le sink others hfits, Nat.add_sub_cancel' hfits]

end Delivers
end Rendering

open Rendering

namespace Chunk

/-- The text of a chunk, as far as it is written. -/
def text
    (options : Options)
    (chunk : Chunk) : String :=
  match options.mode with
  | .pseudo => pseudocodeText options.listConstants chunk.main
  | .disasm => Listing.text chunk.main
  | .json => chunk.dump ++ "\n"

/-- What ends the writing of a chunk if there is room for all of it. -/
def result
    (options : Options)
    (chunk : Chunk) : Except Error Unit :=
  match options.mode with
  | .pseudo =>
      match failure? (chunk.main.flatten options.listConstants) with
      | none => .ok ()
      | some error => .error (.generate error)
  | .disasm => .ok ()
  | .json => .ok ()

/-- The error if there is room for `limit` bytes only: that of the dump while it is written. -/
def fullError
    (options : Options)
    (chunk : Chunk)
    (limit : Nat) : Error :=
  if options.mode = .json ∧ limit < chunk.dump.toUTF8.size then
    .json .full
  else
    .io .full

/-- What is written before the flush, and the error if a sink fills up on the way. -/
theorem delivers_writeBody
    (options : Options)
    (chunk : Chunk) :
    Delivers (chunk.writeBody options) (chunk.text options).toUTF8 (chunk.result options)
      (chunk.fullError options) := by
  obtain ⟨mode, listConstants⟩ := options
  cases mode with
  | pseudo =>
      have hio : ∀ limit, chunk.fullError ⟨.pseudo, listConstants⟩ limit = .io .full :=
        fun limit => if_neg fun h => nomatch h.1
      have hwrite : Delivers
          (reporting .io (Sink.writeText (pseudocodeText listConstants chunk.main)))
          (chunk.text ⟨.pseudo, listConstants⟩).toUTF8 (.ok ())
          (chunk.fullError ⟨.pseudo, listConstants⟩) :=
        Delivers.write .io fun limit _ => hio limit
      have hreport (full : Nat → Error) :
          Delivers (reportFailure (failure? (chunk.main.flatten listConstants)))
            ByteArray.empty (chunk.result ⟨.pseudo, listConstants⟩) full := by
        refine Delivers.of_conclusion fun sink => ?_
        rw [result]
        cases failure? (chunk.main.flatten listConstants) <;> rfl
      have hboth := hwrite.bind (hreport _)
      rw [ByteArray.append_empty, ← pseudocode_eq] at hboth
      exact hboth
  | disasm =>
      have hbody : chunk.writeBody ⟨.disasm, listConstants⟩ =
          reporting .io (Sink.writeText (Listing.text chunk.main)) := by
        rw [writeBody, Listing.write_eq]
      rw [hbody]
      exact Delivers.write .io fun limit _ => if_neg fun h => nomatch h.1
  | json =>
      have hdump : Delivers (reporting .json (Sink.writeText chunk.dump)) chunk.dump.toUTF8
          (.ok ()) (chunk.fullError ⟨.json, listConstants⟩) :=
        Delivers.write .json fun limit hcut => if_pos ⟨rfl, hcut⟩
      have hbreak : Delivers (reporting .io (Sink.writeText "\n")) "\n".toUTF8 (.ok ())
          (fun limit => chunk.fullError ⟨.json, listConstants⟩
            (chunk.dump.toUTF8.size + limit)) :=
        Delivers.write .io fun limit _ =>
          if_neg fun h => absurd h.2 (Nat.not_lt.2 (Nat.le_add_right _ _))
      exact hdump.bind hbreak

/-! ## Whole runs -/

variable (options : Options) (chunk : Chunk)

/-- A sink with room for a text that is incomplete takes all of it, and is not flushed. -/
theorem write_of_error
    {sink : Sink}
    {error : Error}
    (hroom : sink.HasRoom (chunk.text options).toUTF8.size)
    (h : chunk.result options = .error error) :
    chunk.write options sink = .error error (sink.append (chunk.text options).toUTF8) := by
  have hbody := (delivers_writeBody options chunk).fits sink hroom
  rw [h] at hbody
  simp only [write, bind, EStateM.bind, hbody, conclude]

/-- A sink with room for a complete text takes it and is flushed. -/
theorem write_of_ok
    {sink : Sink}
    (hroom : sink.HasRoom (chunk.text options).toUTF8.size)
    (h : chunk.result options = .ok ()) :
    chunk.write options sink =
      reporting .io Sink.flush (sink.append (chunk.text options).toUTF8) := by
  have hbody := (delivers_writeBody options chunk).fits sink hroom
  rw [h] at hbody
  simp only [write, bind, EStateM.bind, hbody, conclude]
  rfl

/-- A sink without room for the text is filled up, and is not flushed. -/
theorem write_of_lt
    {sink : Sink}
    {limit : Nat}
    (hlimit : sink.limit = some limit)
    (hcut : limit < (chunk.text options).toUTF8.size) :
    chunk.write options sink =
      .error (chunk.fullError options limit)
        (sink.fill limit (chunk.text options).toUTF8) := by
  have hbody := (delivers_writeBody options chunk).cut sink limit hlimit hcut
  simp only [write, bind, EStateM.bind, hbody]

theorem flush_apply
    (sink : Sink) :
    reporting .io Sink.flush sink =
      conclude (if sink.flushFails then .error (.io .flushFailed) else .ok ())
        { sink with flushes := sink.flushes + 1 } := by
  rw [reporting, Sink.flush]
  cases sink.flushFails <;> rfl

theorem hasRoom_unlimited
    (count : Nat) :
    Sink.unlimited.HasRoom count :=
  fun _ hlimit => nomatch hlimit

theorem stored_unlimited :
    (sinkAfter (chunk.write options) .unlimited).stored = (chunk.text options).toUTF8 := by
  have hroom := hasRoom_unlimited (chunk.text options).toUTF8.size
  rw [sinkAfter]
  cases hresult : chunk.result options with
  | ok _ =>
      rw [write_of_ok options chunk hroom hresult, flush_apply]
      exact ByteArray.empty_append
  | error error =>
      rw [write_of_error options chunk hroom hresult]
      exact ByteArray.empty_append

theorem result_unlimited :
    resultOn (chunk.write options) .unlimited = chunk.result options := by
  have hroom := hasRoom_unlimited (chunk.text options).toUTF8.size
  rw [resultOn]
  cases hresult : chunk.result options with
  | ok _ =>
      rw [write_of_ok options chunk hroom hresult, flush_apply]
      rfl
  | error error =>
      rw [write_of_error options chunk hroom hresult]

variable {capacity : Nat}

/-- A sink whose capacity is below the size of the text is filled up. -/
theorem run_limited_of_lt
    (flushFails : Bool)
    (hcut : capacity < (chunk.text options).toUTF8.size) :
    chunk.write options (.limited capacity flushFails) =
      .error (chunk.fullError options capacity)
        ((Sink.limited capacity flushFails).fill capacity (chunk.text options).toUTF8) :=
  write_of_lt options chunk rfl hcut

theorem hasRoom_limited
    {count : Nat}
    (flushFails : Bool)
    (hfits : count ≤ capacity) :
    (Sink.limited capacity flushFails).HasRoom count :=
  Sink.HasRoom.of_limit rfl hfits

/-- What is stored is the beginning of the text that fits. -/
theorem stored_limited
    (flushFails : Bool) :
    (sinkAfter (chunk.write options) (.limited capacity flushFails)).stored =
      (chunk.text options).toUTF8.extract 0
        (min capacity (chunk.text options).toUTF8.size) := by
  rw [sinkAfter]
  rcases Nat.lt_or_ge capacity (chunk.text options).toUTF8.size with hcut | hfits
  · rw [run_limited_of_lt options chunk flushFails hcut, Nat.min_eq_left hcut.le]
    exact ByteArray.empty_append
  · have hroom := hasRoom_limited flushFails hfits
    rw [Nat.min_eq_right hfits, ByteArray.extract_zero_size]
    cases hresult : chunk.result options with
    | ok _ =>
        rw [write_of_ok options chunk hroom hresult, flush_apply]
        cases flushFails <;> exact ByteArray.empty_append
    | error error =>
        rw [write_of_error options chunk hroom hresult]
        exact ByteArray.empty_append

theorem result_of_mode
    (hmode : options.mode ≠ .pseudo) :
    chunk.result options = .ok () := by
  rw [result]
  cases hcase : options.mode with
  | pseudo =>
      exact absurd hcase hmode
  | disasm =>
      rfl
  | json =>
      rfl

/--
A chunk is written to a sink that takes `capacity` bytes, where `whole` and
`result` are what a sink without a limit stores and the result there.

The first `capacity` bytes are stored.  If these are all, an error stays as it
is and nothing is flushed, and success is followed by one flush, which decides.
Otherwise nothing is flushed and the sink is what is reported, whatever the
result would have been: as an error of the dump while that is written, and as
one of input and output everywhere else.
-/
theorem write_limited
    (options : Options)
    (chunk : Chunk)
    (capacity : Nat)
    (flushFails : Bool) :
    let whole := (sinkAfter (Chunk.write options chunk) Sink.unlimited).stored
    let result := resultOn (Chunk.write options chunk) Sink.unlimited
    let sink := sinkAfter (Chunk.write options chunk) (Sink.limited capacity flushFails)
    let limitedResult := resultOn (Chunk.write options chunk) (Sink.limited capacity flushFails)
    sink.stored = whole.extract 0 (min capacity whole.size) ∧
    (whole.size ≤ capacity →
      match result with
      | .error error => limitedResult = .error error ∧ sink.flushes = 0
      | .ok () =>
          limitedResult = (if flushFails then .error (.io .flushFailed) else .ok ()) ∧
            sink.flushes = 1) ∧
    (capacity < whole.size →
      sink.flushes = 0 ∧
        limitedResult = .error
          (if options.mode = .json ∧ capacity < chunk.dump.toUTF8.size then
            .json .full
          else
            .io .full)) ∧
    (options.mode ≠ .pseudo → result = .ok ()) := by
  simp only [stored_unlimited, result_unlimited, stored_limited]
  refine ⟨trivial, fun hfits => ?_, fun hcut => ?_, result_of_mode options chunk⟩
  · have hroom := hasRoom_limited flushFails hfits
    rw [sinkAfter, resultOn]
    cases hresult : chunk.result options with
    | ok _ =>
        rw [write_of_ok options chunk hroom hresult, flush_apply]
        cases flushFails <;> exact ⟨rfl, rfl⟩
    | error error =>
        rw [write_of_error options chunk hroom hresult]
        exact ⟨rfl, rfl⟩
  · rw [sinkAfter, resultOn, run_limited_of_lt options chunk flushFails hcut]
    exact ⟨rfl, rfl⟩

end Chunk
end LuaBytecode
