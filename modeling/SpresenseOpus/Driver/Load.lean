import SpresenseOpus.Driver.DspDrv

/-!
# What loading and unloading leave behind

`DspDrv::init` acquires a task, a message queue and a receiver thread one after another and gives
back what it has when a later step fails; `DspDrv::destroy` gives back all three. `DD_Load` and
`DD_Unload` delete the instance of the driver afterwards, and what it still holds is then out of
reach.

Two steps of `init` return without giving anything back. Over whole runs of loads and unloads, the
instances that were deleted have left something behind exactly when some load has failed in one of
these (`released_iff`). And `destroy` starts with the thread: when it fails behind it, it can not be
repeated (`noerror_notMem_of_halfway`).
-/

namespace SpresenseOpus.Driver

/-- `dsp_bin_type_e`. -/
inductive DspBinType where
  | DspBinTypeELF
  | DspBinTypeELFwoBind
  | DspBinTypeSPK
  deriving DecidableEq, Repr

/-- The values of `dspdrv_errorcode_e` as the functions return them. -/
def DspdrvErrorcode.value : DspdrvErrorcode → Int32
  | .DSPDRV_NOERROR => 0
  | .DSPDRV_FILENAME_EMPTY => 1
  | .DSPDRV_CALLBACK_ERROR => 2
  | .DSPDRV_INVALID_VALUE => 3
  | .DSPDRV_CREATE_FAIL => 4
  | .DSPDRV_INIT_MPTASK_FAIL => 5
  | .DSPDRV_INIT_MPMQ_FAIL => 6
  | .DSPDRV_INIT_PTHREAD_FAIL => 7

/-- The receiver thread of an instance. -/
inductive ReceiverThread where
  | absent
  | running
  | cancelled
  | joined
  deriving DecidableEq, Repr

/-- A thread that is gone, or was never there. -/
def ReceiverThread.Gone (t : ReceiverThread) : Prop := t = .absent ∨ t = .joined

/-- What an instance of `DspDrv` holds: `m_mptask`, `m_mq` and `m_thread_id`. -/
structure DspDrv where
  mptask : Bool := false
  mq : Bool := false
  thread : ReceiverThread := .absent
  deriving DecidableEq, Repr

/-- An instance that holds nothing. -/
def DspDrv.Released (d : DspDrv) : Prop := d.mptask = false ∧ d.mq = false ∧ d.thread.Gone

/-- What the library calls of `init` and `destroy` return. -/
structure Calls where
  /-- `mptask_init`, or `mptask_init_secure` for an SPK. -/
  mptask_init : Int32 := 0
  mptask_assign : Int32 := 0
  mpmq_init : Int32 := 0
  mptask_bindobj : Int32 := 0
  pthread_attr_setschedparam : Int32 := 0
  pthread_create : Int32 := 0
  mptask_exec : Int32 := 0
  pthread_cancel : Int32 := 0
  pthread_join : Int32 := 0
  mpmq_destroy : Int32 := 0
  mptask_destroy : Int32 := 0

/-! ## Single calls -/

/-- `pthread_cancel`. -/
def DspDrv.cancel (r : Calls) (d : DspDrv) : DspDrv :=
  if r.pthread_cancel = 0 then { d with thread := .cancelled } else d

/-- `pthread_join`. -/
def DspDrv.join (r : Calls) (d : DspDrv) : DspDrv :=
  if r.pthread_join = 0 then { d with thread := .joined } else d

/-- `mpmq_destroy`. -/
def DspDrv.destroyMq (r : Calls) (d : DspDrv) : DspDrv :=
  if 0 ≤ r.mpmq_destroy then { d with mq := false } else d

/-- `mptask_destroy`. -/
def DspDrv.destroyTask (r : Calls) (d : DspDrv) : DspDrv :=
  if 0 ≤ r.mptask_destroy then { d with mptask := false } else d

/-! ## `init` -/

/-- `DspDrv::init`: its result and what the instance holds then. The two labels at the end of the
function are where the queue and the task are destroyed. -/
def DspDrv.init (bintype : DspBinType) (r : Calls) (d : DspDrv) : Int32 × DspDrv :=
  if r.mptask_init < 0 then (DspdrvErrorcode.DSPDRV_INIT_MPTASK_FAIL.value, d)
  else
    let d := { d with mptask := true }
    -- The task is not destroyed here.
    if r.mptask_assign < 0 then (DspdrvErrorcode.DSPDRV_INIT_MPTASK_FAIL.value, d)
    else if r.mpmq_init < 0 then (DspdrvErrorcode.DSPDRV_INIT_MPMQ_FAIL.value, d.destroyTask r)
    else
      let d := { d with mq := true }
      -- Neither is anything here, and the result is the one of the library.
      if bintype = .DspBinTypeELF ∧ r.mptask_bindobj < 0 then (r.mptask_bindobj, d)
      else if r.pthread_attr_setschedparam ≠ 0 then
        (DspdrvErrorcode.DSPDRV_INIT_PTHREAD_FAIL.value, (d.destroyMq r).destroyTask r)
      else if r.pthread_create ≠ 0 then
        (DspdrvErrorcode.DSPDRV_INIT_PTHREAD_FAIL.value, (d.destroyMq r).destroyTask r)
      else
        let d := { d with thread := .running }
        if r.mptask_exec < 0 then
          (DspdrvErrorcode.DSPDRV_INIT_MPTASK_FAIL.value,
            (((d.cancel r).join r).destroyMq r).destroyTask r)
        else (DspdrvErrorcode.DSPDRV_NOERROR.value, d)

/-! ## `destroy` -/

/-- `DspDrv::destroy`. Its argument `force` goes on to `mptask_destroy`. -/
def DspDrv.destroy (r : Calls) (d : DspDrv) : DspdrvErrorcode × DspDrv :=
  if r.pthread_cancel ≠ 0 then (.DSPDRV_INIT_PTHREAD_FAIL, d)
  else if r.pthread_join ≠ 0 then (.DSPDRV_INIT_PTHREAD_FAIL, d.cancel r)
  else
    let d := (d.cancel r).join r
    if r.mptask_destroy < 0 then (.DSPDRV_INIT_MPTASK_FAIL, d)
    else
      let d := d.destroyTask r
      if r.mpmq_destroy < 0 then (.DSPDRV_INIT_MPMQ_FAIL, d)
      else (.DSPDRV_NOERROR, d.destroyMq r)

/-- What `destroy` can do: nothing is given back and the thread may be cancelled; or it fails behind
the thread, which is joined, with the queue still there; or everything is given back. -/
inductive Destroyed (d : DspDrv) : DspdrvErrorcode → DspDrv → Prop
  | thread {d' : DspDrv} : d'.mq = d.mq → Destroyed d .DSPDRV_INIT_PTHREAD_FAIL d'
  | halfway {ret : DspdrvErrorcode} {d' : DspDrv} : ret ≠ .DSPDRV_NOERROR → d'.thread = .joined →
      d'.mq = d.mq → Destroyed d ret d'
  | done {d' : DspDrv} : d'.Released → Destroyed d .DSPDRV_NOERROR d'

/-- Every call of `destroy` comes to one of these. -/
theorem destroyed (r : Calls) (d : DspDrv) : Destroyed d (d.destroy r).1 (d.destroy r).2 := by
  unfold DspDrv.destroy
  split_ifs with hcancel hjoin htask hmq
  · exact .thread rfl
  · refine .thread ?_
    unfold DspDrv.cancel
    split_ifs <;> rfl
  · simp only [not_not] at hcancel hjoin
    refine .halfway (by simp) ?_ ?_ <;> simp [DspDrv.cancel, DspDrv.join, hcancel, hjoin]
  · have htask' : 0 ≤ r.mptask_destroy := Int32.not_lt.mp htask
    simp only [not_not] at hcancel hjoin
    refine .halfway (by simp) ?_ ?_ <;>
      simp [DspDrv.cancel, DspDrv.join, DspDrv.destroyTask, hcancel, hjoin, htask']
  · have htask' : 0 ≤ r.mptask_destroy := Int32.not_lt.mp htask
    have hmq' : 0 ≤ r.mpmq_destroy := Int32.not_lt.mp hmq
    simp only [not_not] at hcancel hjoin
    refine .done ?_
    simp [DspDrv.Released, DspDrv.cancel, DspDrv.join, DspDrv.destroyMq, DspDrv.destroyTask,
      ReceiverThread.Gone, hcancel, hjoin, htask', hmq']

/-- An instance that was destroyed without an error holds nothing. -/
theorem destroy_noerror {r : Calls} {d : DspDrv}
    (h : (d.destroy r).1 = .DSPDRV_NOERROR) : (d.destroy r).2.Released := by
  have hd := destroyed r d
  generalize d.destroy r = x at h hd ⊢
  obtain ⟨ret, d'⟩ := x
  cases hd with
  | thread hmq => exact absurd h (by simp)
  | halfway hret hthread hmq => exact absurd h hret
  | done hreleased => exact hreleased

/-! ## The interface -/

/-- A call of `DD_Load`: which pointers are given, what kind of binary it is, and whether `new`
succeeds; with the results of the library calls. -/
structure Load where
  filename : Bool := true
  p_cbfunc : Bool := true
  dsp_handler : Bool := true
  bintype : DspBinType
  created : Bool := true
  calls : Calls

/-- A call of the interface. A handle is the number of the instance that it names. -/
inductive Op where
  /-- `DD_Load`, and `DD_Load_Secure` with `DspBinTypeSPK`. -/
  | load (l : Load)
  /-- `DD_Unload` and `DD_force_Unload`. -/
  | unload (p_instance : Option ℕ) (r : Calls)

/-- The instances by their handles, without those that were deleted, and what the deleted ones held
at the time. -/
structure Instances where
  live : List (Option DspDrv) := []
  deleted : List DspDrv := []

/-- `DD_Load`. The handle is stored before `init`, and a failure leaves it to name an instance that
is deleted. -/
def ddLoad (l : Load) (w : Instances) : Int32 × Instances :=
  if l.filename = false then (DspdrvErrorcode.DSPDRV_FILENAME_EMPTY.value, w)
  else if l.p_cbfunc = false then (DspdrvErrorcode.DSPDRV_CALLBACK_ERROR.value, w)
  else if l.dsp_handler = false then (DspdrvErrorcode.DSPDRV_INVALID_VALUE.value, w)
  else if l.created = false then (DspdrvErrorcode.DSPDRV_CREATE_FAIL.value, w)
  else
    let (ret, d) := DspDrv.init l.bintype l.calls {}
    if ret ≠ DspdrvErrorcode.DSPDRV_NOERROR.value then
      (ret, { live := w.live ++ [none], deleted := w.deleted ++ [d] })
    else (ret, { w with live := w.live ++ [some d] })

/-- `DD_Unload` on an instance. -/
def ddUnload (h : ℕ) (d : DspDrv) (r : Calls) (w : Instances) : DspdrvErrorcode × Instances :=
  let (ret, d) := d.destroy r
  if ret = .DSPDRV_NOERROR then
    (ret, { live := w.live.set h none, deleted := w.deleted ++ [d] })
  else (ret, { w with live := w.live.set h (some d) })

/-- The instances after a call. There is no next step for the use of an instance that is deleted. -/
def step (w : Instances) : Op → Option Instances
  | .load l => some (ddLoad l w).2
  | .unload none _ => some w
  | .unload (some h) r => (w.live[h]?.join).map fun d => (ddUnload h d r w).2

/-- The instances after some calls, starting with none. -/
def runOps (ops : List Op) : Option Instances := ops.foldlM step {}

/-! ## What is left behind -/

/-- The calls that give something back after a failure succeed, as `init` asserts. -/
def Calls.Asserted (r : Calls) : Prop :=
  r.pthread_cancel = 0 ∧ r.pthread_join = 0 ∧ r.mpmq_destroy = 0 ∧ r.mptask_destroy = 0

/-- `init` comes to `mptask_assign` and fails there. -/
def Calls.FailsInAssign (r : Calls) : Prop := 0 ≤ r.mptask_init ∧ r.mptask_assign < 0

/-- `init` comes to `mptask_bindobj`, as it does for an ELF with a bind area, and fails there. -/
def Calls.FailsInBindobj (r : Calls) (bintype : DspBinType) : Prop :=
  0 ≤ r.mptask_init ∧ 0 ≤ r.mptask_assign ∧ 0 ≤ r.mpmq_init ∧ bintype = .DspBinTypeELF ∧
    r.mptask_bindobj < 0

/-- A load that comes to one of the two steps and fails there. -/
def Op.FailsHalfway : Op → Prop
  | .load l => (l.filename = true ∧ l.p_cbfunc = true ∧ l.dsp_handler = true ∧ l.created = true) ∧
      (l.calls.FailsInAssign ∨ l.calls.FailsInBindobj l.bintype)
  | .unload _ _ => False

/-- The calls of a load that are made after a failure succeed. -/
def Op.Asserted : Op → Prop
  | .load l => l.calls.Asserted
  | .unload _ _ => True

/-- `init` that fails in one of the two steps leaves something behind, and `init` that fails in any
other leaves nothing. -/
theorem released_init_iff (bintype : DspBinType) {r : Calls} (ha : r.Asserted)
    (hfail : (DspDrv.init bintype r {}).1 ≠ DspdrvErrorcode.DSPDRV_NOERROR.value) :
    (DspDrv.init bintype r {}).2.Released ↔
      ¬ (r.FailsInAssign ∨ r.FailsInBindobj bintype) := by
  obtain ⟨hcancel, hjoin, hmq, htask⟩ := ha
  unfold DspDrv.init at hfail ⊢
  unfold Calls.FailsInAssign Calls.FailsInBindobj
  simp only [← Int32.not_lt]
  split_ifs at hfail ⊢ <;>
    simp_all [DspDrv.Released, DspDrv.cancel, DspDrv.join, DspDrv.destroyMq,
      DspDrv.destroyTask, ReceiverThread.Gone]

/-- `init` that succeeds has not failed in either. -/
theorem not_failsHalfway_of_noerror {bintype : DspBinType} {r : Calls} {d : DspDrv}
    (hok : (DspDrv.init bintype r d).1 = DspdrvErrorcode.DSPDRV_NOERROR.value) :
    ¬ (r.FailsInAssign ∨ r.FailsInBindobj bintype) := by
  have hne : DspdrvErrorcode.DSPDRV_INIT_MPTASK_FAIL.value ≠
      DspdrvErrorcode.DSPDRV_NOERROR.value := by decide
  unfold DspDrv.init at hok
  rintro (⟨htask, hassign⟩ | ⟨htask, hassign, hmq, helf, hbind⟩)
  · rw [if_neg (Int32.not_lt.mpr htask), if_pos hassign] at hok
    exact absurd hok hne
  · rw [if_neg (Int32.not_lt.mpr htask), if_neg (Int32.not_lt.mpr hassign),
      if_neg (Int32.not_lt.mpr hmq), if_pos ⟨helf, hbind⟩] at hok
    rw [show r.mptask_bindobj = 0 from hok] at hbind
    exact absurd hbind (by decide)

/-- All instances that were deleted held nothing at the time. -/
def Instances.Clean (w : Instances) : Prop := ∀ d ∈ w.deleted, d.Released

/-- One more deleted instance. -/
theorem clean_append {w w' : Instances} {d : DspDrv} (h : w'.deleted = w.deleted ++ [d]) :
    w'.Clean ↔ w.Clean ∧ d.Released := by
  unfold Instances.Clean
  rw [h]
  simp only [List.mem_append, List.mem_singleton]
  constructor
  · exact fun hall => ⟨fun x hx => hall x (.inl hx), hall d (.inr rfl)⟩
  · rintro ⟨hold, hnew⟩ x (hx | rfl)
    · exact hold x hx
    · exact hnew

/-- A load deletes its instance with something left behind exactly when it fails halfway. -/
theorem clean_load_iff {w : Instances} {l : Load} (ha : l.calls.Asserted) :
    (ddLoad l w).2.Clean ↔ w.Clean ∧ ¬ (Op.load l).FailsHalfway := by
  unfold ddLoad Op.FailsHalfway
  split_ifs with hname hcb hhandler hnew
  · simp [hname]
  · simp [hcb]
  · simp [hhandler]
  · simp [hnew]
  · simp only [Bool.not_eq_false] at hname hcb hhandler hnew
    simp only [hname, hcb, hhandler, hnew, true_and]
    generalize hinit : DspDrv.init l.bintype l.calls {} = x
    obtain ⟨ret, d⟩ := x
    by_cases hfail : ret ≠ DspdrvErrorcode.DSPDRV_NOERROR.value
    · have hiff := released_init_iff l.bintype ha (by rw [hinit]; exact hfail)
      rw [hinit] at hiff
      simp only [if_pos hfail]
      rw [clean_append (d := d) rfl, hiff]
    · have hnoerror : (DspDrv.init l.bintype l.calls {}).1 =
          DspdrvErrorcode.DSPDRV_NOERROR.value := by
        rw [hinit]
        exact not_not.mp hfail
      have hok := not_failsHalfway_of_noerror hnoerror
      simp only [if_neg hfail]
      exact (and_iff_left hok).symm

/-- An unload deletes an instance that holds nothing, if it deletes it. -/
theorem clean_unload_iff (h : ℕ) (d : DspDrv) (r : Calls) (w : Instances) :
    (ddUnload h d r w).2.Clean ↔ w.Clean := by
  unfold ddUnload
  have hreleased := destroy_noerror (r := r) (d := d)
  generalize d.destroy r = x at hreleased ⊢
  obtain ⟨ret, d'⟩ := x
  by_cases hok : ret = .DSPDRV_NOERROR
  · simp only [if_pos hok]
    rw [clean_append (d := d') rfl]
    exact and_iff_left (hreleased hok)
  · simp only [if_neg hok]
    exact Iff.rfl

/-- One call. -/
theorem clean_step_iff {w w' : Instances} {op : Op} (ha : op.Asserted) (h : step w op = some w') :
    w'.Clean ↔ w.Clean ∧ ¬ op.FailsHalfway := by
  cases op with
  | load l =>
    obtain rfl := Option.some.inj h
    exact clean_load_iff ha
  | unload p_instance r =>
    have hno : ¬ (Op.unload p_instance r).FailsHalfway := id
    rw [and_iff_left hno]
    cases p_instance with
    | none =>
      obtain rfl := Option.some.inj h
      exact Iff.rfl
    | some i =>
      obtain ⟨d, -, rfl⟩ := Option.map_eq_some_iff.mp h
      exact clean_unload_iff i d r w

/-- Calls from any instances on. -/
theorem clean_foldlM_iff : ∀ {ops : List Op} {w w' : Instances}, (∀ op ∈ ops, op.Asserted) →
    ops.foldlM step w = some w' → (w'.Clean ↔ w.Clean ∧ ∀ op ∈ ops, ¬ op.FailsHalfway)
  | [], w, w', _, h => by
    obtain rfl := Option.some.inj h
    simp
  | op :: ops, w, w', ha, h => by
    rw [List.foldlM_cons] at h
    obtain ⟨w₁, hstep, hrest⟩ := Option.bind_eq_some_iff.mp h
    have ih := clean_foldlM_iff (fun op hop => ha op (List.mem_cons_of_mem _ hop)) hrest
    rw [ih, clean_step_iff (ha op List.mem_cons_self) hstep, and_assoc, List.forall_mem_cons]

/-- Over every run of loads and unloads in which the calls that `init` asserts do succeed, the
instances that were deleted have held nothing at the time if and only if no load has failed in
`mptask_assign` or `mptask_bindobj`. -/
theorem released_iff {ops : List Op} {w : Instances} (ha : ∀ op ∈ ops, op.Asserted)
    (h : runOps ops = some w) :
    (∀ d ∈ w.deleted, d.Released) ↔ ∀ op ∈ ops, ¬ op.FailsHalfway := by
  have hiff := clean_foldlM_iff ha h
  have hstart : Instances.Clean {} := fun d hd => absurd hd List.not_mem_nil
  rw [and_iff_right hstart] at hiff
  exact hiff

/-- A load that fails in `mptask_assign`, one that succeeds, and an unload. -/
def loadTwice : List Op :=
  [.load { bintype := .DspBinTypeELF, calls := { mptask_assign := -1 } },
    .load { bintype := .DspBinTypeELF, calls := {} }, .unload (some 1) {}]

/-- The condition for two loads, the first of which fails in `mptask_assign`. -/
theorem released_loadTwice :
    (∀ d ∈ [{ mptask := true }, ({ thread := .joined } : DspDrv)], d.Released) ↔
      ∀ op ∈ loadTwice, ¬ op.FailsHalfway := by
  have hasserted : ∀ op ∈ loadTwice, op.Asserted := by
    intro op hop
    simp only [loadTwice, List.mem_cons, List.not_mem_nil, or_false] at hop
    rcases hop with rfl | rfl | rfl
    · exact ⟨rfl, rfl, rfl, rfl⟩
    · exact ⟨rfl, rfl, rfl, rfl⟩
    · exact trivial
  exact released_iff (w := { live := [none, none], deleted := _ }) hasserted rfl

/-! ## Unloading again -/

/-- What repeated calls of `DD_Unload` on an instance return, up to the one that deletes it, and
what the instance holds in the end. -/
def unloads : List Calls → DspDrv → List DspdrvErrorcode × DspDrv
  | [], d => ([], d)
  | r :: rs, d =>
    if (d.destroy r).1 = .DSPDRV_NOERROR then ([.DSPDRV_NOERROR], (d.destroy r).2)
    else ((d.destroy r).1 :: (unloads rs (d.destroy r).2).1, (unloads rs (d.destroy r).2).2)

/-- A thread that was joined can not be cancelled. -/
def CancelFailsOnJoined : List Calls → DspDrv → Prop
  | [], _ => True
  | r :: rs, d => (d.thread = .joined → r.pthread_cancel ≠ 0) ∧
      CancelFailsOnJoined rs (d.destroy r).2

/-- An instance whose thread was joined stays as it is. -/
theorem unloads_of_joined : ∀ {rs : List Calls} {d : DspDrv}, CancelFailsOnJoined rs d →
    d.thread = .joined →
    unloads rs d = (List.replicate rs.length .DSPDRV_INIT_PTHREAD_FAIL, d)
  | [], _, _, _ => rfl
  | r :: rs, d, hr, hd => by
    have hdestroy : d.destroy r = (.DSPDRV_INIT_PTHREAD_FAIL, d) := by
      unfold DspDrv.destroy
      rw [if_pos (hr.1 hd)]
    have hrest := hr.2
    rw [hdestroy] at hrest
    have ih := unloads_of_joined hrest hd
    unfold unloads
    rw [hdestroy]
    simp only [ih]
    rfl

/-- Once an unload has failed behind the thread, in `mptask_destroy` or `mpmq_destroy`, no unload of
the instance succeeds any more, however often it is repeated, and the queue stays as it was. -/
theorem noerror_notMem_of_halfway : ∀ {rs : List Calls} {d : DspDrv}, CancelFailsOnJoined rs d →
    (∃ ret ∈ (unloads rs d).1, ret = .DSPDRV_INIT_MPTASK_FAIL ∨ ret = .DSPDRV_INIT_MPMQ_FAIL) →
    DspdrvErrorcode.DSPDRV_NOERROR ∉ (unloads rs d).1 ∧ (unloads rs d).2.mq = d.mq
  | [], _, _, h => by
    obtain ⟨ret, hret, -⟩ := h
    exact absurd hret List.not_mem_nil
  | r :: rs, d, hr, h => by
    have hrest := hr.2
    have hd := destroyed r d
    unfold unloads at h ⊢
    generalize d.destroy r = x at hrest hd h ⊢
    obtain ⟨ret, d'⟩ := x
    simp only at hrest hd h ⊢
    cases hd with
    | thread hmq =>
      -- Nothing has happened yet, and the failure comes later.
      have hne : DspdrvErrorcode.DSPDRV_INIT_PTHREAD_FAIL ≠ .DSPDRV_NOERROR := by decide
      simp only [if_neg hne] at h ⊢
      obtain ⟨code, hcode, hhalf⟩ := h
      have hlater : code ∈ (unloads rs d').1 := by
        rcases List.mem_cons.mp hcode with rfl | hcode
        · exact absurd hhalf (by simp)
        · exact hcode
      obtain ⟨hno, hmq'⟩ := noerror_notMem_of_halfway hrest ⟨code, hlater, hhalf⟩
      exact ⟨fun hmem => (List.mem_cons.mp hmem).elim (fun h => hne h.symm) hno, hmq'.trans hmq⟩
    | halfway hret hthread hmq =>
      simp only [if_neg hret, unloads_of_joined hrest hthread]
      refine ⟨fun hmem => ?_, hmq⟩
      rcases List.mem_cons.mp hmem with hhead | htail
      · exact hret hhead.symm
      · exact absurd (List.eq_of_mem_replicate htail) (by simp)
    | done hreleased =>
      obtain ⟨code, hcode, hhalf⟩ := h
      simp only [if_true, List.mem_singleton] at hcode
      exact absurd hhalf (by simp [hcode])

/-- The queue is busy in the first unload, and two more follow. -/
theorem noerror_notMem_busyQueue :
    DspdrvErrorcode.DSPDRV_NOERROR ∉ (unloads
        [{ mpmq_destroy := -16 }, { pthread_cancel := 3 }, { pthread_cancel := 3 }]
        { mptask := true, mq := true, thread := .running }).1 ∧
      (unloads [{ mpmq_destroy := -16 }, { pthread_cancel := 3 }, { pthread_cancel := 3 }]
        { mptask := true, mq := true, thread := .running }).2.mq = true :=
  @noerror_notMem_of_halfway
    [{ mpmq_destroy := -16 }, { pthread_cancel := 3 }, { pthread_cancel := 3 }]
    { mptask := true, mq := true, thread := .running }
    ⟨by simp, by decide, by decide, trivial⟩
    ⟨.DSPDRV_INIT_MPMQ_FAIL, by decide, .inr rfl⟩

end SpresenseOpus.Driver
