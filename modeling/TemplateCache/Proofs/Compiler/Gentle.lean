import TemplateCache.Proofs.Program.Settling

/-!
# Where a call only looks and makes directories

On its way to the store a call asks many things, but it neither writes a file nor removes or
renames anything. Such questions are *gentle*. That a part of a call asks nothing else can be read
off its program, so it holds whatever the answers are, and whatever others do between them.
-/

namespace TemplateCache

open Program

/-- A request that changes nothing, or makes a directory. -/
def Request.IsGentle : Request → Prop
  | .remove _ => False
  | .temporary _ _ => False
  | .rename _ _ => False
  | _ => True

/-- A question that changes no files beyond that. -/
def CompileQuestion.IsGentle : CompileQuestion → Prop
  | .file r => r.IsGentle
  | _ => True

namespace FileProgram

/-- A program all of whose requests are gentle. -/
abbrev Gentle {α : Type} (p : FileProgram α) : Prop :=
  p.Settles (fun (r : Request) _ => ¬r.IsGentle) fun _ => False

theorem gentle_ask {r : Request} (h : r.IsGentle) : Gentle (ask r) :=
  Settles.question fun _ hnot => hnot h

theorem gentle_isFile (p : Path) : Gentle (isFile p) := by
  refine Settles.bind_quiet (gentle_ask trivial) fun status => ?_
  cases status <;> exact Settles.pure _

theorem gentle_unlessThere (p : Path) (e : SystemError) : Gentle (unlessThere p e) := by
  refine Settles.bind_quiet (Settles.bind_quiet (gentle_ask trivial) fun status => ?_)
    fun there => ?_
  · cases status <;> exact Settles.pure _
  · cases there <;> exact Settles.pure _

theorem gentle_makeAll (paths : List Path) : Gentle (makeAll paths) := by
  induction paths with
  | nil => exact Settles.pure _
  | cons p above ih =>
      refine Settles.bind_quiet (gentle_ask trivial) fun made => ?_
      cases made with
      | ok u => exact Settles.pure _
      | error e =>
          dsimp only
          split
          · exact gentle_unlessThere p e
          · refine Settles.bind_quiet ih fun made => ?_
            cases made with
            | error e => exact Settles.pure _
            | ok u =>
                refine Settles.bind_quiet (gentle_ask trivial) fun made => ?_
                cases made with
                | ok u => exact Settles.pure _
                | error e => exact gentle_unlessThere p e

end FileProgram

namespace Store

open FileProgram

theorem gentle_openAt (dir : Path) : Gentle (openAt dir) := by
  have habsolute : Gentle (absolute dir) := by
    unfold absolute
    split
    · exact Settles.pure _
    · split
      · exact Settles.pure _
      · refine Settles.bind_quiet (gentle_ask trivial) fun workingDir => ?_
        cases workingDir <;> exact Settles.pure _
  refine Settles.bind_quiet habsolute fun full => ?_
  cases full with
  | error e => exact Settles.pure _
  | ok full =>
      refine Settles.bind_quiet (Settles.bind_quiet (gentle_ask trivial) fun status => ?_)
        fun made => by cases made <;> exact Settles.pure _
      cases status with
      | ok status =>
          dsimp only
          split <;> exact Settles.pure _
      | error e =>
          dsimp only
          split
          · exact Settles.pure _
          · exact Settles.bind_quiet (gentle_makeAll _) fun made => by
              cases made <;> exact Settles.pure _

end Store

namespace CompileProgram

/-- A part of a call all of whose questions are gentle. -/
abbrev Gentle {α : Type} (p : CompileProgram α) : Prop :=
  p.Settles (fun (q : CompileQuestion) _ => ¬q.IsGentle) fun _ => False

theorem gentle_ask {q : CompileQuestion} (h : q.IsGentle) : Gentle (ask q) :=
  Settles.question (I := CompileInterface) fun _ hnot => hnot h

theorem gentle_onFiles {α : Type} {p : FileProgram α} (h : p.Gentle) : Gentle (onFiles p) :=
  Settles.onFiles h

end CompileProgram

open CompileProgram in
/-- The destination is found by looking. -/
theorem Compiler.gentle_destination (c : Compiler) (o : Options) : Gentle (c.destination o) := by
  have hunder : FileProgram.Gentle Root.underWorkingDir :=
    Settles.bind_quiet (FileProgram.gentle_ask trivial) fun dir => by
      cases dir <;> exact Settles.pure _
  unfold destination
  split
  · exact Settles.pure _
  · refine Settles.bind_quiet (Settles.expand_quiet (fun q => ?_) _) fun dir => by
      cases dir <;> exact Settles.pure _
    cases q with
    | held => exact gentle_ask trivial
    | announce dir => exact gentle_ask trivial
    | publish dir => exact gentle_ask trivial
    | resolve =>
        refine gentle_onFiles ?_
        cases c.root with
        | fixed path => exact Settles.pure _
        | environment =>
            refine Settles.bind_quiet (FileProgram.gentle_ask trivial) fun root => ?_
            cases root with
            | none => exact hunder
            | some bytes =>
                cases bytes with
                | nil => exact hunder
                | cons b rest => exact Settles.pure _

end TemplateCache
