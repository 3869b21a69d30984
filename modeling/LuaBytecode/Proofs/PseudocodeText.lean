import LuaBytecode.Proofs.Flattening
import LuaBytecode.Proofs.SinkWrites
import LuaBytecode.Render

/-!
# The text of pseudocode

Of the pieces of a tree those before the first instruction without statements
are written, and nothing else is: not the instruction itself, nor an end of a
function around it, nor a function behind it.  To a sink all of that is one
write, after which the failure is reported.

**Results.**
* `emit_eq`: pieces are written up to the first that has no lines.
* `Sink.writeLine_eq`: the tabs, the text and the end of a line are one write.
* `Rendering.pseudocode_eq`: pseudocode is one write and then a result.
* `PseudocodeWriter.writeChunk_eq_flatten`: a tree and its pieces.
-/

namespace LuaBytecode

/-! ## The pieces that are written -/

namespace Item

/-- The lines of a piece, which are none if it is an instruction without statements. -/
def lines
    (item : Item) : List Line :=
  match item.lower with
  | .ok lines => lines
  | .error _ => []

/-- Why a piece has no lines. -/
def error?
    (item : Item) : Option GenerateError :=
  match item.lower with
  | .ok _ => none
  | .error error => some error

end Item

/-- The lines of the longest first part in which no piece fails. -/
def writtenLines
    (pieces : List Item) : List Line :=
  (pieces.takeWhile fun item => item.error?.isNone).flatMap Item.lines

/-- The error of the first piece that fails. -/
def failure?
    (pieces : List Item) : Option GenerateError :=
  pieces.findSome? Item.error?

section Cuts

variable {item : Item} {rest first : List Item} {lines : List Line} {error : GenerateError}

theorem writtenLines_cons_of_ok
    (h : item.lower = .ok lines) :
    writtenLines (item :: rest) = lines ++ writtenLines rest := by
  simp [writtenLines, Item.error?, Item.lines, h]

theorem writtenLines_cons_of_error
    (h : item.lower = .error error) :
    writtenLines (item :: rest) = [] := by
  simp [writtenLines, Item.error?, h]

theorem failure?_cons_of_ok
    (h : item.lower = .ok lines) :
    failure? (item :: rest) = failure? rest := by
  simp [failure?, Item.error?, h]

theorem failure?_cons_of_error
    (h : item.lower = .error error) :
    failure? (item :: rest) = some error := by
  simp [failure?, Item.error?, h]

/-- The first failure of two lists of pieces is that of the first one, if it has one. -/
theorem failure?_append
    (first second : List Item) :
    failure? (first ++ second) = (failure? first).or (failure? second) :=
  List.findSome?_append

/-- Pieces are written behind others if none of those fails, and otherwise not at all. -/
theorem writtenLines_append
    (first second : List Item) :
    writtenLines (first ++ second) =
      writtenLines first ++ if (failure? first).isNone then writtenLines second else [] := by
  induction first with
  | nil =>
      rfl
  | cons item rest ih =>
      rw [List.cons_append]
      cases hlower : item.lower with
      | ok lines =>
          rw [writtenLines_cons_of_ok hlower, writtenLines_cons_of_ok hlower,
            failure?_cons_of_ok hlower, ih, List.append_assoc]
      | error error =>
          rw [writtenLines_cons_of_error hlower, writtenLines_cons_of_error hlower,
            failure?_cons_of_error hlower]
          rfl

/-- If no piece fails all are written. -/
theorem writtenLines_of_failure?_eq_none
    {pieces : List Item}
    (h : failure? pieces = none) :
    writtenLines pieces = pieces.flatMap Item.lines := by
  induction pieces with
  | nil =>
      rfl
  | cons item rest ih =>
      cases hlower : item.lower with
      | ok lines =>
          have hlines : item.lines = lines := by
            rw [Item.lines, hlower]
          rw [failure?_cons_of_ok hlower] at h
          rw [writtenLines_cons_of_ok hlower, ih h, List.flatMap_cons, hlines]
      | error error =>
          rw [failure?_cons_of_error hlower] at h
          cases h

end Cuts

/-- Reports an error if there is one. -/
def reportFailure
    {σ : Type} :
    Option GenerateError → EStateM Error σ Unit
  | none => return ()
  | some error => throw (.generate error)

/-- Pieces are written up to the first that has no lines, which is then reported. -/
theorem emit_eq
    {σ : Type}
    [LineSink σ]
    (pieces : List Item) :
    (emit pieces : EStateM Error σ Unit) =
      (do putLines (writtenLines pieces); reportFailure (failure? pieces)) := by
  induction pieces with
  | nil =>
      rfl
  | cons item rest ih =>
      cases hlower : item.lower with
      | ok lines =>
          rw [emit, put_of_lower_ok hlower, ih, writtenLines_cons_of_ok hlower,
            failure?_cons_of_ok hlower, putLines_append, bind_assoc]
      | error error =>
          rw [emit, put_of_lower_error hlower, writtenLines_cons_of_error hlower,
            failure?_cons_of_error hlower]
          rfl

/-! ## Text -/

/-- A line after its tabs, with a line break. -/
def Line.render
    (line : Line) : String :=
  String.ofList (List.replicate line.depth '\t') ++ line.text ++ "\n"

/-- Lines one below the other. -/
def Line.renderAll
    (lines : List Line) : String :=
  String.join (lines.map Line.render)

namespace Sink

/-- Tabs are written as one text. -/
theorem writeTabs_eq
    (count : Nat) :
    ByteSink.writeTabs count = writeText (String.ofList (List.replicate count '\t')) := by
  induction count with
  | zero =>
      exact writeText_empty.symm
  | succ count ih =>
      rw [ByteSink.writeTabs, ih, byteSink_writeText, List.replicate_succ, String.ofList_cons,
        writeText_append]
      rfl

/-- The tabs, the text and the line break of a line are one write. -/
theorem writeLine_eq
    (line : Line) :
    LineSink.writeLine line = writeText line.render := by
  rw [Line.render, writeText_append, writeText_append, bind_assoc, ← writeTabs_eq]
  rfl

end Sink

namespace Rendering

theorem reporting_bind
    (reportSink : SinkError → Error)
    (first second : EStateM SinkError Sink Unit) :
    reporting reportSink (do first; second) =
      (do reporting reportSink first; reporting reportSink second) := by
  funext sink
  simp only [reporting, bind, EStateM.bind]
  cases first sink <;> rfl

theorem putLine_eq
    (line : Line) :
    putLine line = reporting .io (Sink.writeText line.render) := by
  funext sink
  rw [putLine, reporting, Sink.writeLine_eq]
  cases Sink.writeText line.render sink <;> rfl

/-- Lines are written as one text: where a sink fills up, it holds the bytes up to there. -/
theorem putLines_eq
    (lines : List Line) :
    putLines lines = reporting .io (Sink.writeText (Line.renderAll lines)) := by
  induction lines with
  | nil =>
      rw [Line.renderAll, List.map_nil, String.join_nil, Sink.writeText_empty]
      rfl
  | cons line rest ih =>
      rw [Line.renderAll, List.map_cons, String.join_cons, Sink.writeText_append,
        reporting_bind, putLines, ih, putLine_eq]
      rfl

/-- The text that is written of a tree. -/
def pseudocodeText
    (listConstants : Bool)
    (main : Prototype) : String :=
  Line.renderAll (writtenLines (main.flatten listConstants))

/-- A new writer writes the pieces of a tree. -/
theorem pseudocode_eq_emit
    {σ : Type}
    [ByteSink σ]
    (listConstants : Bool)
    (main : Prototype) :
    (pseudocode listConstants main : RenderingTo σ Unit) =
      emit (main.flatten listConstants) := by
  have htraces := PseudocodeWriter.traces_writeChunk (σ := σ) listConstants 0 main
  funext sink
  rw [pseudocode]
  cases hrun : (emit (main.flatten listConstants) : RenderingTo σ Unit) sink with
  | ok _ reached =>
      rw [PseudocodeWriter.new, htraces.ok hrun]
  | error error reached =>
      obtain ⟨number, hwriting⟩ := htraces.error hrun
      rw [PseudocodeWriter.new, hwriting]

/-- Pseudocode is one write, and then the failure if there is one. -/
theorem pseudocode_eq
    (listConstants : Bool)
    (main : Prototype) :
    pseudocode listConstants main =
      (do
        reporting .io (Sink.writeText (pseudocodeText listConstants main))
        reportFailure (failure? (main.flatten listConstants))) := by
  rw [pseudocode_eq_emit, emit_eq, putLines_eq]
  rfl

end Rendering

/--
Into a sink that takes everything goes the text of the pieces before the first
that fails, behind what the sink holds; the result is the error of that piece,
and success if there is none.
-/
theorem PseudocodeWriter.writeChunk_eq_flatten
    (listConstants : Bool)
    (main : Prototype)
    (number : Nat)
    (sink : Sink) :
    ∃ next,
      writeChunk main ⟨{ sink with limit := none }, number, listConstants⟩ =
        let pieces := main.flatten listConstants
        let text := Line.renderAll (writtenLines pieces)
        let writer : PseudocodeWriter Sink := {
          sink := { sink with stored := sink.stored ++ text.toUTF8, limit := none }
          nextFunction := next
          listConstants }
        match failure? pieces with
        | none => .ok () writer
        | some error => .error (.generate error) writer := by
  have htraces := traces_writeChunk (σ := Sink) listConstants number main
  have htext (text : String) :
      Sink.writeText text { sink with limit := none } =
        .ok () { sink with stored := sink.stored ++ text.toUTF8, limit := none } :=
    Sink.write_of_hasRoom fun _ hlimit => nomatch hlimit
  have hemit := congrFun (emit_eq (σ := Sink) (main.flatten listConstants))
    { sink with limit := none }
  rw [Rendering.putLines_eq] at hemit
  simp only [bind, EStateM.bind, Rendering.reporting, htext] at hemit
  cases hfailure : failure? (main.flatten listConstants) with
  | none =>
      rw [hfailure] at hemit
      simp only [hfailure]
      exact ⟨_, htraces.ok hemit⟩
  | some error =>
      rw [hfailure] at hemit
      simp only [hfailure]
      exact htraces.error hemit

end LuaBytecode
