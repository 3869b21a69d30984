import LuaBytecode.Proofs.PseudocodeText

/-!
# The lines of a run

Pseudocode goes to a sink line by line, so a sink may keep the lines themselves
and not their bytes.  What it keeps of a run are the lines of the pieces before
the first that fails; a sink for bytes without a limit holds the same lines as
text, and the result of the run is the same for both.

**Results.**
* `LineLog`: a sink that keeps lines.
* `PseudocodeWriter.outcome_writeChunk`: a run on a sink that takes all lines.
* `Prototype.pseudocode_eq_outcome_map`: the text of a tree by such a run.
-/

namespace LuaBytecode

/-- The lines that were written, in order. -/
structure LineLog where
  lines : List Line

/-- A log takes every line. -/
instance : LineSink LineLog where
  writeLine := fun line log => .ok () ⟨log.lines ++ [line]⟩

/-- A log takes all lines. -/
theorem putLines_log
    (lines : List Line)
    (log : LineLog) :
    putLines lines log = .ok () ⟨log.lines ++ lines⟩ := by
  induction lines generalizing log with
  | nil =>
      rw [List.append_nil]
      rfl
  | cons line rest ih =>
      have hline : putLine line log = .ok () ⟨log.lines ++ [line]⟩ := rfl
      rw [putLines]
      simp only [bind, EStateM.bind, hline, ih, List.append_assoc, List.singleton_append]

/-- A sink without a limit takes the text of all lines. -/
theorem putLines_of_limit_none
    (lines : List Line)
    {sink : Sink}
    (h : sink.limit = none) :
    putLines lines sink = .ok () (sink.append (Line.renderAll lines).toUTF8) := by
  have hroom : sink.HasRoom (Line.renderAll lines).toUTF8.size := by
    intro limit hlimit
    rw [h] at hlimit
    cases hlimit
  rw [Rendering.putLines_eq, Rendering.reporting, Sink.writeText, Sink.write_of_hasRoom hroom]

/-- The result of a run whose first failure is the given one. -/
def runResult :
    Option GenerateError → Except Error Unit
  | none => .ok ()
  | some error => .error (.generate error)

namespace PseudocodeWriter

variable {σ : Type}

/-- The result of a run, and the sink that it leaves. -/
def outcome :
    EStateM.Result Error (PseudocodeWriter σ) Unit → Except Error Unit × σ
  | .ok () writer => (.ok (), writer.sink)
  | .error error writer => (.error error, writer.sink)

variable [LineSink σ] (main : Prototype) (listConstants : Bool) (number : Nat)

/-- A sink that takes all lines is left as they leave it, whatever the writer wrote before. -/
theorem outcome_writeChunk
    {sink reached : σ}
    (h : putLines (writtenLines (main.flatten listConstants)) sink = .ok () reached) :
    outcome (writeChunk main ⟨sink, number, listConstants⟩) =
      (runResult (failure? (main.flatten listConstants)), reached) := by
  have htraces := traces_writeChunk (σ := σ) listConstants number main
  have hemit := congrFun (emit_eq (σ := σ) (main.flatten listConstants)) sink
  simp only [bind, EStateM.bind, h] at hemit
  cases hfailure : failure? (main.flatten listConstants) with
  | none =>
      rw [hfailure] at hemit
      rw [htraces.ok hemit]
      rfl
  | some error =>
      rw [hfailure] at hemit
      obtain ⟨next, hwriting⟩ := htraces.error hemit
      rw [hwriting]
      rfl

theorem outcome_log
    (log : LineLog) :
    outcome (writeChunk main ⟨log, number, listConstants⟩) =
      (runResult (failure? (main.flatten listConstants)),
        ⟨log.lines ++ writtenLines (main.flatten listConstants)⟩) :=
  outcome_writeChunk main listConstants number (putLines_log _ log)

/-- The same lines are stored as text in a sink without a limit. -/
theorem outcome_sink
    (sink : Sink) :
    outcome (writeChunk main ⟨{ sink with limit := none }, number, listConstants⟩) =
      (runResult (failure? (main.flatten listConstants)),
        { sink with
          stored := sink.stored ++
            (Line.renderAll (writtenLines (main.flatten listConstants))).toUTF8
          limit := none }) :=
  outcome_writeChunk main listConstants number (putLines_of_limit_none _ rfl)

end PseudocodeWriter

namespace Prototype

open PseudocodeWriter

variable (main : Prototype) (listConstants : Bool)

theorem outcome_writeChunk_unlimited :
    outcome (writeChunk main (.new Sink.unlimited listConstants)) =
      (runResult (failure? (main.flatten listConstants)),
        Sink.unlimited.append
          (Line.renderAll (writtenLines (main.flatten listConstants))).toUTF8) :=
  outcome_sink main listConstants 0 .unlimited

/-- The pseudocode of a tree is what a run on an empty sink leaves, if it succeeds. -/
theorem pseudocode_eq_outcome_map :
    main.pseudocode listConstants =
      (outcome (writeChunk main (.new Sink.unlimited listConstants))).1.map
        fun _ => (outcome (writeChunk main (.new Sink.unlimited listConstants))).2.text := by
  rw [pseudocode]
  cases writeChunk main (.new Sink.unlimited listConstants) <;> rfl

end Prototype
end LuaBytecode
