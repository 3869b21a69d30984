import LuaBytecode.Command.FileTree
import LuaBytecode.Command.Run
import LuaBytecode.Proofs.BoundedSink

/-!
# What the command does to files

The output is written through a buffer, so what reaches the file while a chunk is
rendered depends on how the text is cut into writes.  Once the buffer was flushed
it does not: the file holds what a sink without a limit would hold, also behind a
rendering that failed.  Before the output is created nothing is changed.

**Results.**
* `Chunk.write_of_takesAll`: a chunk written to anything that takes all bytes.
* `BufferedFile.contents_take`: no byte is lost or moved before another one.
* `Command.rendered_eq`: what the file holds in the end.
* `Command.renderFile_effects`: the result and the files, stage by stage.
* `FileTree.contents_renderFile`: what a tree has under the path rendered into.
-/

namespace LuaBytecode

/-! ## Taking all bytes -/

section TakingAll

variable {σ ε : Type}

/-- What never refuses bytes, and holds all that it took. -/
structure TakesAll
    [ByteSink σ]
    (contents : σ → ByteArray) : Prop where
  write : ∀ bytes sink, ∃ next,
    ByteSink.write bytes sink = .ok () next ∧ contents next = contents sink ++ bytes
  flush : ∀ sink, ∃ next,
    ByteSink.flush sink = .ok () next ∧ contents next = contents sink

/-- A computation that succeeds and stores the given bytes. -/
def Stores
    (contents : σ → ByteArray)
    (writing : EStateM ε σ Unit)
    (bytes : ByteArray) : Prop :=
  ∀ sink, ∃ next, writing sink = .ok () next ∧ contents next = contents sink ++ bytes

namespace Stores

variable {contents : σ → ByteArray} {first second : EStateM ε σ Unit} {bytes others : ByteArray}

theorem pure :
    Stores contents (pure () : EStateM ε σ Unit) ByteArray.empty :=
  fun sink => ⟨sink, rfl, ByteArray.append_empty.symm⟩

/-- What two computations store stands one behind the other. -/
theorem bind
    (h : Stores contents first bytes)
    (h' : Stores contents second others) :
    Stores contents (do first; second) (bytes ++ others) := by
  intro sink
  obtain ⟨middle, hfirst, hmiddle⟩ := h sink
  obtain ⟨next, hsecond, hnext⟩ := h' middle
  refine ⟨next, ?_, ?_⟩
  · simp only [Bind.bind, EStateM.bind, hfirst, hsecond]
  · rw [hnext, hmiddle, ByteArray.append_assoc]

/-- In what words a failure would be reported does not change what is stored. -/
theorem reporting
    {writing : EStateM SinkError σ Unit}
    (report : SinkError → Error)
    (h : Stores contents writing bytes) :
    Stores contents (Rendering.reporting report writing) bytes := by
  intro sink
  obtain ⟨next, hwriting, hnext⟩ := h sink
  exact ⟨next, by simp only [Rendering.reporting, hwriting], hnext⟩

theorem append_text
    {left right : String}
    (h : Stores contents first left.toUTF8)
    (h' : Stores contents second right.toUTF8) :
    Stores contents (do first; second) (left ++ right).toUTF8 := by
  rw [String.toUTF8_eq_toByteArray, String.toByteArray_append]
  exact h.bind h'

end Stores

namespace TakesAll

variable [ByteSink σ] {contents : σ → ByteArray} (h : TakesAll contents)
include h

theorem writeText
    (text : String) :
    Stores contents (ByteSink.writeText text) text.toUTF8 :=
  fun sink => h.write text.toUTF8 sink

/-! ### Listings -/

theorem writeAll
    (texts : List String) :
    Stores contents (Listing.writeAll texts) (String.join texts).toUTF8 := by
  induction texts with
  | nil =>
      exact Stores.pure
  | cons text rest ih =>
      rw [String.join_cons]
      exact (h.writeText text).append_text ih

theorem writeFollowing
    (functions : List (String × FunctionInfo)) :
    Stores contents (Listing.writeFollowing functions)
      (Listing.followingText functions).toUTF8 := by
  induction functions with
  | nil =>
      exact Stores.pure
  | cons entry rest ih =>
      obtain ⟨name, info⟩ := entry
      rw [Listing.followingText_cons, String.append_assoc]
      exact (h.writeText "\n").append_text ((h.writeAll _).append_text ih)

/-- A listing is stored as its text. -/
theorem writeListing
    (main : Prototype) :
    Stores contents (Listing.write main) (Listing.text main).toUTF8 := by
  rw [Listing.write, Listing.text]
  cases Listing.walk 0 [main] with
  | nil =>
      exact Stores.pure
  | cons entry rest =>
      exact (h.writeAll _).append_text (h.writeFollowing rest)

/-! ### Pseudocode -/

theorem writeTabs
    (count : Nat) :
    Stores contents (ByteSink.writeTabs count)
      (String.ofList (List.replicate count '\t')).toUTF8 := by
  induction count with
  | zero =>
      exact Stores.pure
  | succ count ih =>
      rw [List.replicate_succ, String.ofList_cons]
      exact (h.writeText "\t").append_text ih

theorem writeLine
    (line : Line) :
    Stores contents (LineSink.writeLine line) line.render.toUTF8 := by
  rw [Line.render, String.append_assoc]
  exact (h.writeTabs line.depth).append_text
    ((h.writeText line.text).append_text (h.writeText "\n"))

/-- Lines are stored as the text that they are together. -/
theorem putLines
    (lines : List Line) :
    Stores contents (putLines lines) (Line.renderAll lines).toUTF8 := by
  induction lines with
  | nil =>
      exact Stores.pure
  | cons line rest ih =>
      have hline : Stores contents (putLine line) line.render.toUTF8 := by
        intro sink
        obtain ⟨next, hwrite, hnext⟩ := h.writeLine line sink
        exact ⟨next, by simp only [putLine, hwrite], hnext⟩
      rw [Line.renderAll, List.map_cons, String.join_cons]
      exact hline.append_text ih

end TakesAll

/--
A chunk is written in full, or up to the first instruction without statements.  To
flush a sink that takes everything does not change what it holds.
-/
theorem Chunk.write_of_takesAll
    [ByteSink σ]
    {contents : σ → ByteArray}
    (h : TakesAll contents)
    (options : Options)
    (chunk : Chunk)
    (sink : σ) :
    ∃ next,
      chunk.write options sink = Rendering.conclude (chunk.result options) next ∧
        contents next = contents sink ++ (chunk.text options).toUTF8 := by
  have hflushed {body : RenderingTo σ Unit} {bytes : ByteArray}
      (hbody : Stores contents body bytes) :
      Stores contents (do body; Rendering.reporting .io ByteSink.flush) bytes := by
    intro sink
    obtain ⟨middle, hrun, hmiddle⟩ := hbody sink
    obtain ⟨next, hflush, hnext⟩ := h.flush middle
    refine ⟨next, ?_, hnext.trans hmiddle⟩
    simp only [bind, EStateM.bind, hrun, Rendering.reporting, hflush]
  obtain ⟨mode, listConstants⟩ := options
  cases mode with
  | pseudo =>
      have hlines := h.putLines (writtenLines (chunk.main.flatten listConstants))
      rw [write, writeBody, Rendering.pseudocode_eq_emit, emit_eq, result, text]
      cases failure? (chunk.main.flatten listConstants) with
      | none =>
          have hbody := hlines.bind Stores.pure
          rw [ByteArray.append_empty] at hbody
          exact hflushed hbody sink
      | some error =>
          obtain ⟨next, hrun, hnext⟩ := hlines sink
          refine ⟨next, ?_, hnext⟩
          simp only [bind, EStateM.bind, hrun]
          rfl
  | disasm =>
      exact hflushed ((h.writeListing chunk.main).reporting .io) sink
  | json =>
      exact hflushed (((h.writeText chunk.dump).reporting .json).append_text
        ((h.writeText "\n").reporting .io)) sink

end TakingAll

/-! ## Buffered files -/

namespace BufferedFile

/-- What a file holds once its buffer was passed on. -/
def contents
    (file : BufferedFile) : ByteArray :=
  file.written ++ file.pending

@[simp] theorem contents_passOn
    (file : BufferedFile) :
    file.passOn.contents = file.contents := by
  rw [contents, passOn, ByteArray.append_empty]
  rfl

@[simp] theorem contents_makeRoom
    (file : BufferedFile)
    (size : Nat) :
    (file.makeRoom size).contents = file.contents := by
  rw [makeRoom]
  split
  · exact file.contents_passOn
  · rfl

/-- Before bytes that are as long as the buffer nothing is left in it. -/
theorem pending_makeRoom
    (file : BufferedFile)
    {size : Nat}
    (h : capacity ≤ size) :
    (file.makeRoom size).pending = ByteArray.empty := by
  rw [makeRoom]
  split
  · rfl
  · exact ByteArray.size_eq_zero_iff.1 (by omega)

/-- What is taken comes behind all that was taken before. -/
theorem contents_take
    (file : BufferedFile)
    (bytes : ByteArray) :
    (file.take bytes).contents = file.contents ++ bytes := by
  rw [take, ← file.contents_makeRoom bytes.size]
  split
  next hlong =>
      simp only [contents, file.pending_makeRoom hlong, ByteArray.append_empty]
  next =>
      simp only [contents, ByteArray.append_assoc]

/-- A buffered file takes everything, partly into its buffer. -/
theorem takesAll :
    TakesAll contents where
  write := fun bytes file => ⟨file.take bytes, rfl, file.contents_take bytes⟩
  flush := fun file => ⟨file.passOn, rfl, file.contents_passOn⟩

end BufferedFile

namespace Command

/-- The file holds what was written, and nothing stays behind in the buffer. -/
theorem rendered_eq
    (options : Options)
    (chunk : Chunk) :
    rendered options chunk =
      ⟨chunk.result options, .ok (), (chunk.text options).toUTF8⟩ := by
  obtain ⟨file, hwrite, hcontents⟩ :=
    Chunk.write_of_takesAll BufferedFile.takesAll options chunk BufferedFile.empty
  have hempty : BufferedFile.empty.contents = ByteArray.empty := ByteArray.append_empty
  rw [hempty, ByteArray.empty_append] at hcontents
  rw [rendered, hwrite]
  cases chunk.result options with
  | ok _ =>
      rw [← hcontents]
      rfl
  | error error =>
      rw [← hcontents]
      rfl

end Command

/-! ## Files -/

namespace FileSystem

theorem lookup_put
    (files : List (Location × ByteArray))
    (place : Location)
    (bytes : ByteArray) :
    (put files place bytes).lookup place = some bytes := by
  simp [put]

theorem lookup_put_of_ne
    (files : List (Location × ByteArray))
    {place location : Location}
    (bytes : ByteArray)
    (h : location ≠ place) :
    (put files place bytes).lookup location = files.lookup location := by
  have hkept : (files.filter fun file => file.1 != place).lookup location =
      files.lookup location := by
    induction files with
    | nil =>
        rfl
    | cons file rest ih =>
        obtain ⟨other, held⟩ := file
        by_cases hother : other = place
        · subst hother
          simp [List.lookup_cons, beq_false_of_ne h, ih]
        · simp [List.lookup_cons, hother, ih]
  simp [put, List.lookup_cons, beq_false_of_ne h, hkept]

/-- Files after one was created and then stored. -/
def overwritten
    (system : FileSystem)
    (place : Location)
    (bytes : ByteArray) : FileSystem :=
  { system with files := put (put system.files place ByteArray.empty) place bytes }

section Overwritten

variable (system : FileSystem) {place : Location} (bytes : ByteArray)

theorem lookup_overwritten :
    (system.overwritten place bytes).files.lookup place = some bytes :=
  lookup_put _ _ _

theorem lookup_overwritten_of_ne
    {location : Location}
    (h : location ≠ place) :
    (system.overwritten place bytes).files.lookup location = system.files.lookup location := by
  rw [overwritten, lookup_put_of_ne _ _ h, lookup_put_of_ne _ _ h]

/-- A path that leads to the place has the new bytes. -/
theorem contents_overwritten
    {path : String}
    (h : system.target .reading path = .ok place) :
    (system.overwritten place bytes).contents path = .ok bytes := by
  have htarget : (system.overwritten place bytes).target .reading path = .ok place := h
  simp only [contents, htarget, lookup_overwritten]

/-- Every other path has what it had. -/
theorem contents_overwritten_of_ne
    {path : String}
    (h : system.target .reading path ≠ .ok place) :
    (system.overwritten place bytes).contents path = system.contents path := by
  have htarget : (system.overwritten place bytes).target = system.target := rfl
  rw [contents, contents, htarget]
  cases hplace : system.target .reading path with
  | error error =>
      rfl
  | ok location =>
      have hother : location ≠ place := fun hsame => h (by rw [hplace, hsame])
      simp only [lookup_overwritten_of_ne system bytes hother]

end Overwritten
end FileSystem

namespace Command

variable {system : FileSystem} {input output : String}
variable {bytes : ByteArray} {chunk : Chunk}

/-! ## Stages -/

/-- An input that cannot be read is reported, and nothing is changed. -/
theorem renderFile_of_unread
    (output : String)
    (options : Options)
    {error : FileError}
    (h : system.contents input = .error error) :
    (renderFile input output options : StateM FileSystem (Except CommandError Unit)) system =
      (.error (.read input error), system) := by
  simp only [renderFile, bind, StateT.bind, FileAccess.read, h]
  rfl

/-- An input that is no chunk is reported before the output is created. -/
theorem renderFile_of_unparsed
    (output : String)
    (options : Options)
    {error : ReadError}
    (hread : system.contents input = .ok bytes)
    (h : Chunk.read bytes.data.toList = .error error) :
    (renderFile input output options : StateM FileSystem (Except CommandError Unit)) system =
      (.error (.parse input error), system) := by
  simp only [renderFile, bind, StateT.bind, FileAccess.read, hread, h]
  rfl

/-- An output that cannot be created is reported with all files as they were. -/
theorem renderFile_of_uncreated
    (options : Options)
    {error : FileError}
    (hread : system.contents input = .ok bytes)
    (hparse : Chunk.read bytes.data.toList = .ok chunk)
    (h : system.target .creating output = .error error) :
    (renderFile input output options : StateM FileSystem (Except CommandError Unit)) system =
      (.error (.create output error), system) := by
  simp only [renderFile, bind, StateT.bind, FileAccess.read, hread, hparse, FileAccess.create,
    FileSystem.replace, h]
  rfl

/-- What is created is empty at first, and replaced by the whole text in the end. -/
theorem renderFile_of_created
    (options : Options)
    {place : Location}
    (hread : system.contents input = .ok bytes)
    (hparse : Chunk.read bytes.data.toList = .ok chunk)
    (h : system.target .creating output = .ok place) :
    (renderFile input output options : StateM FileSystem (Except CommandError Unit)) system =
      ((match chunk.result options with
          | .ok () => .ok ()
          | .error error => .error (.decompile input error)),
        system.overwritten place (chunk.text options).toUTF8) := by
  simp only [renderFile, bind, StateT.bind, FileAccess.read, hread, hparse, FileAccess.create,
    FileAccess.store, FileSystem.replace, h, rendered_eq]
  cases chunk.result options <;> rfl

/-- Success is the success of all stages. -/
theorem renderFile_eq_ok_iff
    (system : FileSystem)
    (input output : String)
    (options : Options) :
    ((renderFile input output options : StateM FileSystem (Except CommandError Unit)) system).1 =
        .ok () ↔
      ∃ bytes chunk place,
        system.contents input = .ok bytes ∧ Chunk.read bytes.data.toList = .ok chunk ∧
          system.target .creating output = .ok place ∧
          Rendering.resultOn (Chunk.write options chunk) Sink.unlimited = .ok () := by
  simp only [Chunk.result_unlimited]
  cases hread : system.contents input with
  | error error =>
      rw [renderFile_of_unread output options hread]
      simp
  | ok bytes =>
      cases hparse : Chunk.read bytes.data.toList with
      | error error =>
          rw [renderFile_of_unparsed output options hread hparse]
          simp [hparse]
      | ok chunk =>
          cases hcreate : system.target .creating output with
          | error error =>
              rw [renderFile_of_uncreated options hread hparse hcreate]
              simp
          | ok place =>
              rw [renderFile_of_created options hread hparse hcreate]
              cases hresult : chunk.result options <;> simp [hparse, hresult]

/--
Rendering one file into another, by the first stage that fails.

If the input cannot be read, is no chunk, or the output cannot be created, that
is the error and all files stay as they are.  Otherwise the file where the output
is created, which may be the input or another file that was there, holds in the
end what a sink without a limit would hold, in full or up to the instruction that
fails; no other file is changed, and a failing instruction is the error.
-/
theorem renderFile_effects
    (system : FileSystem)
    (input output : String)
    (options : Options) :
    let run :=
      (renderFile input output options : StateM FileSystem (Except CommandError Unit)) system
    let result := run.1
    let after := run.2
    (∀ error, system.contents input = .error error →
      result = .error (.read input error) ∧ after = system) ∧
    (∀ bytes, system.contents input = .ok bytes →
      (∀ error, Chunk.read bytes.data.toList = .error error →
        result = .error (.parse input error) ∧ after = system) ∧
      ∀ chunk, Chunk.read bytes.data.toList = .ok chunk →
        (∀ error, system.target .creating output = .error error →
          result = .error (.create output error) ∧ after = system) ∧
        ∀ place, system.target .creating output = .ok place →
          let whole := (Rendering.sinkAfter (Chunk.write options chunk) Sink.unlimited).stored
          result =
              (match Rendering.resultOn (Chunk.write options chunk) Sink.unlimited with
                | .ok () => .ok ()
                | .error error => .error (.decompile input error)) ∧
            after.target = system.target ∧
            after.files.lookup place = some whole ∧
            (∀ location, location ≠ place →
              after.files.lookup location = system.files.lookup location) ∧
            (∀ path, system.target .reading path = .ok place →
              after.contents path = .ok whole) ∧
            ∀ path, system.target .reading path ≠ .ok place →
              after.contents path = system.contents path) ∧
    (result = .ok () ↔
      ∃ bytes chunk place,
        system.contents input = .ok bytes ∧ Chunk.read bytes.data.toList = .ok chunk ∧
          system.target .creating output = .ok place ∧
          Rendering.resultOn (Chunk.write options chunk) Sink.unlimited = .ok ()) := by
  intro run result after
  refine ⟨fun error hread => ?_, fun bytes hread => ⟨fun error hparse => ?_, fun chunk hparse =>
    ⟨fun error hcreate => ?_, fun place hcreate => ?_⟩⟩, ?_⟩
  · have hrun : run = _ := renderFile_of_unread output options hread
    exact ⟨congrArg Prod.fst hrun, congrArg Prod.snd hrun⟩
  · have hrun : run = _ := renderFile_of_unparsed output options hread hparse
    exact ⟨congrArg Prod.fst hrun, congrArg Prod.snd hrun⟩
  · have hrun : run = _ := renderFile_of_uncreated options hread hparse hcreate
    exact ⟨congrArg Prod.fst hrun, congrArg Prod.snd hrun⟩
  · have hrun : run = _ := renderFile_of_created options hread hparse hcreate
    have hafter : after = system.overwritten place (chunk.text options).toUTF8 :=
      congrArg Prod.snd hrun
    rw [Chunk.stored_unlimited, Chunk.result_unlimited, hafter]
    exact ⟨congrArg Prod.fst hrun, rfl, system.lookup_overwritten _,
      fun location => system.lookup_overwritten_of_ne _,
      fun path => system.contents_overwritten _, fun path => system.contents_overwritten_of_ne _⟩
  · exact renderFile_eq_ok_iff system input output options

end Command

/-! ## Trees of files -/

namespace FileTree

/-- Names that lead to what can be created lead to it for reading as well. -/
theorem follow_reading_of_creating
    (tree : FileTree)
    (slashed : Bool)
    (names : List String) :
    ∀ {start place : Location},
      tree.follow .creating slashed start names = .ok place →
      tree.follow .reading slashed start names = .ok place := by
  induction names with
  | nil =>
      intro start place h
      rw [follow] at h
      cases h
  | cons name rest ih =>
      intro start place h
      by_cases hdot : name = "."
      · subst hdot
        rw [follow] at h ⊢
        exact ih h
      by_cases hdots : name = ".."
      · subst hdots
        rw [follow] at h ⊢
        exact ih h
      rw [follow.eq_4 tree _ _ _ _ _ hdot hdots] at h ⊢
      split at h
      · cases h
      rw [if_neg fun hreading => Purpose.noConfusion hreading.2.2]
      split at h
      · cases h
      next hname =>
          rw [if_neg hname]
          split at h
          next hdirectory =>
              rw [if_pos hdirectory]
              exact ih h
          next hdirectory =>
              rw [if_neg hdirectory]
              exact h

/-- In a tree, what can be created under a path can be read under it. -/
theorem target_reading_of_creating
    (tree : FileTree)
    {path : String}
    {place : Location}
    (h : tree.target .creating path = .ok place) :
    tree.target .reading path = .ok place := by
  simp only [target] at h ⊢
  split at h
  · cases h
  next hlength =>
      rw [if_neg hlength]
      split at h
      · cases h
      next hpath =>
          rw [if_neg hpath]
          exact tree.follow_reading_of_creating _ _ h

/-- Under the path that was rendered into, a tree then has the text. -/
theorem contents_renderFile
    (tree : FileTree)
    {input output : String}
    (options : Options)
    {bytes : ByteArray}
    {chunk : Chunk}
    {place : Location}
    (hread : tree.system.contents input = .ok bytes)
    (hparse : Chunk.read bytes.data.toList = .ok chunk)
    (h : tree.target .creating output = .ok place) :
    let run : StateM FileSystem (Except CommandError Unit) :=
      Command.renderFile input output options
    (run tree.system).2.contents output =
      .ok (Rendering.sinkAfter (Chunk.write options chunk) Sink.unlimited).stored := by
  intro run
  have hrun := Command.renderFile_of_created options hread hparse h
  rw [Chunk.stored_unlimited, congrArg Prod.snd hrun]
  exact tree.system.contents_overwritten _ (tree.target_reading_of_creating h)

end FileTree
end LuaBytecode
