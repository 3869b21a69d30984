import LuaBytecode.Proofs.WrittenLines

/-!
# Using a writer again

A writer takes one tree after the other, and a tree whose writing fails leaves the
number of the next head anywhere.  Since the numbers of every tree begin anew,
nothing of an earlier tree shows in a later one: each is written as by a writer of
its own, behind what the sink held before.

**Results.**
* `PseudocodeWriter.writeEach`: trees one after the other, on one writer.
* `PseudocodeWriter.exists_left_eq`: one tree, on a writer that has come to any number.
* `PseudocodeWriter.writeEach_independent`: any number of trees.
-/

namespace LuaBytecode
namespace PseudocodeWriter

section Calls

variable {σ : Type}

/-- The writer that a run leaves, whether it succeeded or not. -/
def left :
    EStateM.Result Error (PseudocodeWriter σ) Unit → PseudocodeWriter σ
  | .ok () writer => writer
  | .error _ writer => writer

theorem sink_left
    (run : EStateM.Result Error (PseudocodeWriter σ) Unit) :
    (left run).sink = (outcome run).2 := by
  cases run <;> rfl

variable [LineSink σ]

/-- Writes trees one after the other: the results, and the writer that is left. -/
def writeEach :
    List Prototype → PseudocodeWriter σ → List (Except Error Unit) × PseudocodeWriter σ
  | [], writer => ([], writer)
  | main :: rest, writer =>
      let run := writeChunk main writer
      let others := writeEach rest (left run)
      ((outcome run).1 :: others.1, others.2)

/-- A run leaves the choice of the writer as it is, also where it fails. -/
theorem listConstants_left
    (main : Prototype)
    (writer : PseudocodeWriter σ) :
    (left (writeChunk main writer)).listConstants = writer.listConstants := by
  have htraces :=
    traces_writeChunk (σ := σ) writer.listConstants writer.nextFunction main
  cases hemit : (emit (main.flatten writer.listConstants) : EStateM Error σ Unit)
      writer.sink with
  | ok _ reached =>
      have hrun := htraces.ok hemit
      rw [hrun]
      rfl
  | error error reached =>
      obtain ⟨number, hrun⟩ := htraces.error hemit
      rw [hrun]
      rfl

end Calls

variable (listConstants : Bool)

/-- The result of writing a tree with a writer of its own, and what is written. -/
def separately
    (main : Prototype) : Except Error Unit × ByteArray :=
  let run := outcome (writeChunk main (.new Sink.unlimited listConstants))
  (run.1, run.2.stored)

/-- What is written of trees, each with a writer of its own, one behind the other. -/
def separateBytes
    (trees : List Prototype) : ByteArray :=
  trees.foldr (fun main later => (separately listConstants main).2 ++ later) ByteArray.empty

/-- A tree is written as by a writer of its own, whatever number the writer has come to. -/
theorem outcome_eq_separately
    (main : Prototype)
    (number : Nat)
    (sink : Sink) :
    outcome (writeChunk main ⟨{ sink with limit := none }, number, listConstants⟩) =
      ((separately listConstants main).1, { sink with
        stored := sink.stored ++ (separately listConstants main).2
        limit := none }) := by
  rw [separately, main.outcome_writeChunk_unlimited, outcome_sink]
  simp [Sink.append, Sink.unlimited]

/-- Only the number of the writer that is left depends on how far the writing came. -/
theorem exists_left_eq
    (main : Prototype)
    (number : Nat)
    (sink : Sink) :
    ∃ next,
      left (writeChunk main ⟨{ sink with limit := none }, number, listConstants⟩) =
        ⟨{ sink with
          stored := sink.stored ++ (separately listConstants main).2
          limit := none }, next, listConstants⟩ := by
  have hlist := listConstants_left main ⟨{ sink with limit := none }, number, listConstants⟩
  have hsink := sink_left (writeChunk main ⟨{ sink with limit := none }, number, listConstants⟩)
  rw [outcome_eq_separately] at hsink
  cases hleft : left (writeChunk main ⟨{ sink with limit := none }, number, listConstants⟩) with
  | mk reached next choice =>
      rw [hleft] at hlist hsink
      cases hlist
      cases hsink
      exact ⟨next, rfl⟩

/-- Trees one after the other: the writer that is left can be used like the first one. -/
theorem exists_writeEach_eq
    (trees : List Prototype)
    (number : Nat)
    (sink : Sink) :
    ∃ next,
      writeEach trees ⟨{ sink with limit := none }, number, listConstants⟩ =
        (trees.map fun main => (separately listConstants main).1,
          ⟨{ sink with
            stored := sink.stored ++ separateBytes listConstants trees
            limit := none }, next, listConstants⟩) := by
  induction trees generalizing number sink with
  | nil =>
      exact ⟨number, by simp [writeEach, separateBytes]⟩
  | cons main rest ih =>
      obtain ⟨middle, hleft⟩ := exists_left_eq listConstants main number sink
      obtain ⟨next, hrest⟩ :=
        ih middle { sink with stored := sink.stored ++ (separately listConstants main).2 }
      refine ⟨next, ?_⟩
      rw [writeEach, hleft, hrest, outcome_eq_separately]
      simp only [List.map_cons, separateBytes, List.foldr_cons, ByteArray.append_assoc]

/--
A writer can be used again, whatever became of the trees before.  On one writer
whose sink has no limit, and which may have come to any number, any trees are
written one after the other.  The next tree then has the result that it has with a
writer of its own, and what that writer writes is put behind what the sink holds.
So the results are those of the trees one by one, and the sink ends with what is
written of them one by one.
-/
theorem writeEach_independent
    (number : Nat)
    (sink : Sink) :
    let session := fun trees =>
      writeEach trees ⟨{ sink with limit := none }, number, listConstants⟩
    (∀ (before : List Prototype) (main : Prototype),
      let writer := (session before).2
      outcome (writeChunk main writer) =
        ((separately listConstants main).1, { writer.sink with
          stored := writer.sink.stored ++ (separately listConstants main).2 })) ∧
    ∀ trees : List Prototype,
      (session trees).1 = trees.map (fun main => (separately listConstants main).1) ∧
      (session trees).2.sink = { sink with
        stored := sink.stored ++ separateBytes listConstants trees
        limit := none } := by
  intro session
  refine ⟨fun before main => ?_, fun trees => ?_⟩
  · obtain ⟨next, hbefore⟩ := exists_writeEach_eq listConstants before number sink
    have houtcome := outcome_eq_separately listConstants main next
      { sink with stored := sink.stored ++ separateBytes listConstants before }
    simpa only [session, hbefore] using houtcome
  · obtain ⟨next, htrees⟩ := exists_writeEach_eq listConstants trees number sink
    simp only [session, htrees, and_self]

end PseudocodeWriter
end LuaBytecode
