import SpresenseOpus.Worker.Sessions

/-!
# Messages that make no difference

Once an Init is executed, the worker answers four kinds of messages without any change of its
state: further Inits, Execs of another size, commands for another mode or event, and messages that
are not of address type. They can be deleted from a run, wherever they stand
(`run_without_redundant`).
-/

namespace SpresenseOpus.Worker

open Machine

section Redundant

variable {ε σ : Type} (b : Build ε σ)

/-- A message that makes no difference after the Init `i`. -/
def Redundant (i m : Message) : Prop :=
  m.kind = .value ∨ m.kind = .other ∨ m.kind = .init ∨
    (m.kind = .exec ∧ m.execCmd.input_buffer.size ≠ b.packageSize i)

/-- A redundant message is answered without any change of the state. -/
theorem redundant_unchanged {i m : Message} {w : Globals ε σ} (hw : OpenWith i w)
    (hm : Redundant b i m) : ∃ r, (handle b m).run w = .ok r w := by
  obtain ⟨hinit, e, he, hcfg⟩ := hw
  rcases hm with hk | hk | hk | ⟨hk, hsize⟩
  · exact ⟨_, Turn.run_eq (.value hk)⟩
  · exact ⟨_, Turn.run_eq (.other hk)⟩
  · exact ⟨_, Turn.run_eq (.initAgain hk hinit)⟩
  · rw [← getExpectedPackageSize_eq hcfg] at hsize
    exact ⟨_, Turn.run_eq (.execRejected hk he hsize)⟩

/-- Deleting redundant messages from a run that starts with an Init leaves the globals with all
their histories, the reason for a stop, and the replies to the other messages with everything that
was written for them. The mask says which messages after the Init are kept. -/
theorem run_without_redundant {i : Message} (hi : i.kind = .init) (mask : List Bool)
    (ms : List Message) (hlen : mask.length = ms.length)
    (hred : ∀ m ∈ dropped mask ms, Redundant b i m) :
    run (handle b) (i :: select mask ms) boot =
      { run (handle b) (i :: ms) boot with
        replies := select (true :: mask) (run (handle b) (i :: ms) boot).replies } := by
  cases hrun : (handle b i).run boot with
  | error x w =>
    rw [run_cons_error hrun, run_cons_error hrun, select_nil]
  | ok r w =>
    have hopen := (openWith_of_init b hi hrun).1
    have hstep : ∀ m w r w', OpenWith i w → (handle b m).run w = .ok r w' → OpenWith i w' :=
      fun _ _ _ _ hw hm => (openWith_step hw hm).1
    have hred' : ∀ m w, OpenWith i w → Redundant b i m → ∃ r, (handle b m).run w = .ok r w :=
      fun _ _ hw hm => redundant_unchanged b hw hm
    rw [run_cons_ok hrun, run_cons_ok hrun, run_select hstep hred' mask ms w hlen hopen hred]
    rfl

end Redundant

/-- A second Init for other settings and a frame of another size, before a frame of 20 ms. -/
def redundantDemo : List Message :=
  [initMessage 2 8000 5, execMessage ⟨960, 0x2000⟩ ⟨256, 0x3000⟩ fun _ => 0, monoExec]

/-- The first two of these messages can be deleted. -/
theorem run_without_redundant_mono :
    select [false, false, true] redundantDemo = [monoExec] ∧
      run (handle oggBuild) (monoInit :: select [false, false, true] redundantDemo) boot =
        { run (handle oggBuild) (monoInit :: redundantDemo) boot with
          replies := select [true, false, false, true]
            (run (handle oggBuild) (monoInit :: redundantDemo) boot).replies } := by
  refine ⟨rfl, run_without_redundant oggBuild kind_monoInit _ redundantDemo rfl fun m hm => ?_⟩
  have hm' : m = initMessage 2 8000 5 ∨
      m = execMessage ⟨960, 0x2000⟩ ⟨256, 0x3000⟩ fun _ => 0 := by
    simpa [redundantDemo, dropped, select] using hm
  rcases hm' with rfl | rfl
  · exact .inr (.inr (.inl (kind_initMessage 2 8000 5)))
  · exact .inr (.inr (.inr ⟨kind_execMessage _ _ _, by decide⟩))

end SpresenseOpus.Worker
