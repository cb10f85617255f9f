import Bunix.Kernel.CapRefsStep

/-! # Reference counts: the system calls

Each system call keeps to `refDiscipline`, queues no reference that it does not have twice, and ends without a reference of its own, provided that
no message names a capability with `cap_rights` 0: for such a message the object is exported and
then forgotten. Hence the counts are exact whenever no call is in progress.
-/
namespace Bunix.Kernel

open Bunix.Lib Prog CapProg Multiset Option Bool

variable {k : TaskId} {g : Share} {o : Obj} {m : IpcMessage} {p : PortId} {R : Multiset Obj}
  {Q : Unit → Share → Prop} {user : UserIpcMessage} {rights tag : U32} {ports : List PortId}
  {copyOut : Bool} {handle buf replyBuf taskHandle : Nat} {copyIn : Option UserIpcMessage}
  {handles : List Nat}

/-- `refDiscipline`, and a message is queued by a thread that keeps what it names and the port
for itself as well. -/
def sendDiscipline (k : TaskId) : Discipline CapAct CapAct.Res Share where
  may
    | .sendQueue p m, g => Obj.port p ::ₘ ((m.refs : Multiset Obj) + (m.refs : Multiset Obj)) ≤ g.refs
    | a, g => (refDiscipline k).may a g
  upd := (refDiscipline k).upd

theorem sendDiscipline_may (a : CapAct) (g : Share) (h : (sendDiscipline k).may a g) :
    (refDiscipline k).may a g := by
  cases a with
  | sendQueue p m =>
    refine ⟨mem_of_le h (mem_cons_self ..), le_trans ?_ h⟩
    exact (le_add_right _ _).trans (le_cons_self _ _)
  | _ => exact h

/-! ## Rules for the parts of system calls -/

theorem wp_act {d : Discipline CapAct CapAct.Res Share} {a : CapAct} {Q : a.Res → Share → Prop} :
    wp d (act a) Q g ↔ d.may a g ∧ ∀ r, ∃ g', d.upd a r g g' ∧ Q r g' := Iff.rfl

theorem wp_actBind {d : Discipline CapAct CapAct.Res Share} {a : CapAct} {β : Type} {f : a.Res → CapProg β}
    {Q : β → Share → Prop} (hmay : d.may a g) (hf : ∀ r, ∃ g', d.upd a r g g' ∧ wp d (f r) Q g') :
    wp d (act a >>= f) Q g := wp_bind.mpr ⟨hmay, hf⟩

theorem wp_release (hg : g.refs = o ::ₘ R) (hQ : Q () { g with refs := R }) :
    wp (sendDiscipline k) (act (.release o)) Q g := by
  refine wp_act.mpr ⟨?_, fun _ => ⟨{ g with refs := R }, ⟨hg, rfl⟩, hQ⟩⟩
  show o ∈ g.refs
  rw [hg]
  exact mem_cons_self o R

theorem wp_releaseAll {os : List Obj} (hg : g.refs = os + R)
    (hQ : Q () { g with refs := R }) : wp (sendDiscipline k) (releaseAll os) Q g := by
  induction os generalizing g with
  | nil =>
    rw [coe_nil, zero_add] at hg
    subst hg
    exact hQ
  | cons o os ih =>
    refine wp_bind.mpr (wp_release (R := os + R) ?_ (ih rfl hQ))
    rw [hg, ← cons_coe, cons_add]

theorem wp_retainAll {os : List Obj} (hos : ∀ o ∈ os, g.knows o)
    (hQ : Q () { g with refs := os + g.refs }) : wp (sendDiscipline k) (retainAll os) Q g := by
  induction os generalizing g with
  | nil =>
    rw [coe_nil, zero_add] at hQ
    exact hQ
  | cons o os ih =>
    refine wp_actBind (hos o (List.mem_cons_self ..)) fun _ => ⟨_, rfl, ih ?_ ?_⟩
    · intro o' ho'
      rcases hos o' (List.mem_cons_of_mem o ho') with h | h
      · exact .inl (mem_cons_of_mem h)
      · exact .inr h
    · rw [← cons_coe, cons_add] at hQ
      rw [add_cons]
      exact hQ

theorem wp_attachCap (hcap : user.cap ≠ 0 → user.capRights ≠ 0) (hnone : m.cap = none)
    (hg : g.refs = (m.refs : Multiset Obj) + R) {Q : Bool × IpcMessage → Share → Prop}
    (hQ : ∀ ok m, Q (ok, m) { g with refs := (m.refs : Multiset Obj) + R }) :
    wp (sendDiscipline k) (attachCap user m) Q g := by
  have hself : ∀ ok m', m'.refs = m.refs → Q (ok, m') g := by
    intro ok m' hm'
    have h := hQ ok m'
    rw [hm', ← hg] at h
    exact h
  unfold attachCap
  by_cases h0 : user.cap = 0
  · rw [if_pos h0]
    exact hself true _ rfl
  rw [if_neg h0]
  by_cases hv : user.capRights &&& ~~~validRights ≠ 0
  · rw [if_pos hv]
    exact hself false m rfl
  rw [if_neg hv]
  refine wp_actBind trivial fun r => ⟨_, rfl, ?_⟩
  cases r with
  | none =>
    simp only [toList_none, coe_nil, zero_add]
    exact hself false m rfl
  | some o =>
    simp only [if_neg (hcap h0), wp_pure]
    have h := hQ true { m with cap := some o, words := user.words }
    have hrefs : (({ m with cap := some o, words := user.words } : IpcMessage).refs : Multiset Obj) =
        ([o] : List Obj) + (m.refs : Multiset Obj) := by
      simp [IpcMessage.refs, hnone]
    rw [hrefs, add_assoc, ← hg] at h
    exact h

theorem wp_userMessageToIpc (hcap : user.cap ≠ 0 → user.capRights ≠ 0)
    {Q : Bool × IpcMessage → Share → Prop}
    (hQ : ∀ ok m, Q (ok, m) { g with refs := (m.refs : Multiset Obj) + g.refs }) :
    wp (sendDiscipline k) (userMessageToIpc user) Q g := by
  refine wp_actBind trivial fun r => ⟨_, rfl, ?_⟩
  by_cases h0 : user.cap = 0 ∧ user.capRights ≠ 0
  · rw [if_pos h0]
    exact hQ false (newMessage user r)
  · rw [if_neg h0]
    exact wp_attachCap hcap rfl rfl hQ

theorem wp_sendMessage (hg : .port p ::ₘ (m.refs : Multiset Obj) ≤ g.refs) {Q : Bool → Share → Prop}
    (hQ : ∀ ok g', g'.refs = g.refs → g'.known = g.known → g'.wait = g.wait →
      (g'.smooth = true → g.smooth = true) →
      (ok = false → g'.smooth = true → g.clean = true → g'.clean = true) → Q ok g') :
    wp (sendDiscipline k) (sendMessage p m) Q g := by
  have hm : ∀ o ∈ m.refs, o ∈ g.refs := fun o ho => mem_of_le hg (mem_cons_of_mem ho)
  have htwice : Obj.port p ::ₘ ((m.refs : Multiset Obj) + (m.refs : Multiset Obj)) ≤
      (m.refs : Multiset Obj) + g.refs := by
    rw [← add_cons]
    exact Multiset.add_le_add_left hg
  have hretain : ∀ {Q : Unit → Share → Prop}, Q () { g with refs := (m.refs : Multiset Obj) + g.refs } →
      wp (sendDiscipline k) (ipcMessageRetain m) Q g := fun h =>
    wp_retainAll (fun o ho => .inl (hm o ho)) h
  have hle : (m.refs : Multiset Obj) ≤ m.refs + g.refs := le_add_right _ _
  have hsent : ∀ g', g' = { g with clean := false } → Q true g' := by
    intro g' hg'
    subst hg'
    exact hQ true _ rfl rfl rfl id fun h => by cases h
  refine wp_bind.mpr (hretain (wp_actBind hle fun r => ?_))
  cases r with
  | some receiver =>
    refine ⟨{ g with clean := false }, ⟨rfl, rfl⟩, ?_⟩
    by_cases hr : m.replyPort = none
    · simp only [if_pos hr]
      refine wp_act.mpr ⟨trivial, fun ok => ⟨_, rfl, ?_⟩⟩
      refine hQ ok _ rfl rfl rfl (fun hs => (and_eq_true_iff.mp hs).1) fun hok hs => ?_
      rw [hok, Bool.and_false] at hs
      cases hs
    · simp only [if_neg hr]
      exact wp_actBind trivial fun _ => ⟨_, rfl, hsent _ rfl⟩
  | none =>
    refine ⟨_, rfl, wp_bind.mpr (wp_releaseAll rfl ?_)⟩
    refine wp_actBind trivial fun slab => ⟨_, rfl, ?_⟩
    cases slab with
    | false => exact hQ false _ rfl rfl rfl id fun _ _ hc => hc
    | true =>
      refine wp_bind.mpr (hretain (wp_actBind htwice fun r => ⟨{ g with clean := false }, ⟨rfl, rfl⟩, ?_⟩))
      cases r with
      | none => exact hsent _ rfl
      | some receiver => exact wp_actBind trivial fun _ => ⟨_, rfl, hsent _ rfl⟩

theorem wp_ipcRecv (call : RecvCall) (hwait : g.wait = none) (hn : call.ports.Nodup)
    {Q : Nat × IpcMessage → Share → Prop}
    (hQ : ∀ r, Q r { g with refs := (r.2.refs : Multiset Obj) + g.refs, clean := false }) :
    wp (sendDiscipline k) (ipcRecv call) Q g := by
  refine wp_actBind ⟨hwait, hn⟩ fun r => ?_
  cases r with
  | inr y => exact ⟨_, rfl, hQ y⟩
  | inl w =>
    refine ⟨_, rfl, wp_act.mpr ⟨rfl, fun y => ⟨_, rfl, ?_⟩⟩⟩
    have hy := hQ y
    rw [← hwait]
    exact hy

theorem wp_grantOpt {o : Option Obj} {how : How} (ho : ∀ o', o = some o' → o' ∈ g.refs)
    {Q : Nat → Share → Prop}
    (hQ : ∀ handle clean, (clean = true → g.clean = true) → Q handle { g with clean }) :
    wp (sendDiscipline k) (grantOpt k o rights how) Q g := by
  cases o with
  | none => exact hQ 0 g.clean id
  | some o =>
    refine wp_act.mpr ⟨⟨.inl rfl, .inl (ho o rfl)⟩, fun handle => ⟨_, rfl, ?_⟩⟩
    exact hQ handle _ fun hc => (and_eq_true_iff.mp hc).1

theorem wp_deliver (hg : g.refs = (m.refs : Multiset Obj) + ((ports.map Obj.port : List Obj) + R))
    {Q : Int → Share → Prop}
    (hQ : ∀ clean, (clean = true → g.clean = true) → Q (if copyOut then 0 else -1) { g with refs := R, clean }) :
    wp (sendDiscipline k) (deliver k ports m copyOut) Q g := by
  have hmem : ∀ o ∈ m.refs, o ∈ g.refs := by
    intro o ho
    rw [hg]
    exact mem_add.mpr (.inl ho)
  refine wp_bind.mpr (wp_bind.mpr (wp_grantOpt (fun o ho => hmem o ?_) fun _ clean hc => ?_))
  · exact List.mem_append_right _ (by rw [ho]; simp)
  refine wp_bind.mpr (wp_grantOpt (g := { g with clean }) (fun o ho => hmem o ?_) fun _ clean' hc' => ?_)
  · exact List.mem_append_left _ (by rw [ho]; simp)
  refine wp_bind.mpr (wp_releaseAll hg (wp_bind.mpr (wp_releaseAll rfl ?_)))
  exact hQ clean' fun h => hc (hc' h)

/-! ## The system calls -/

/-- What a thread has when it enters a call. -/
def Share.start (sys : Syscall) : Share := ⟨0, [], none, true, sys.copiesOut⟩

/-- What a call leaves: no references, and after an error nothing was changed, if it went
smoothly. -/
structure Share.Done (sys : Syscall) (r : Int) (g : Share) : Prop where
  refs : g.refs = 0
  wait : g.wait = none
  clean : sys.failed r = true → g.smooth = true → g.clean = true

/-- The calls the counts are shown exact for, and their condition: a message that names a
capability asks for rights on it. -/
def Syscall.Counted : Syscall → Prop
  | .ipcSend _ _ copyIn | .ipcCall _ _ _ copyIn _ =>
    ∀ user ∈ copyIn, user.cap ≠ 0 → user.capRights ≠ 0
  | .ipcRecv .. | .ipcTryRecv .. | .ipcRecvAny .. | .portCreate _ | .bufferCreate _ | .handleClose _
  | .taskGrant .. | .taskGrantTagged .. => True
  | .launchModule .. | .taskCreate _ | .fork _ => False

instance (sys : Syscall) : Decidable sys.Counted := by
  cases sys <;> unfold Syscall.Counted <;> infer_instance

/-- A call from its start to its end. -/
abbrev Counts (k : TaskId) (sys : Syscall) : Prop :=
  wp (sendDiscipline k) (sys.prog k) (Share.Done sys) (Share.start sys)

theorem wp_releasePort_pure {r : Int} {Q : Int → Share → Prop} (hg : g.refs = {.port p})
    (hQ : Q r { g with refs := 0 }) :
    wp (sendDiscipline k) (do act (.release (.port p)); pure r) Q g :=
  wp_bind.mpr (wp_release (R := 0) hg hQ)

theorem wp_nativeSysIpcSend (hcap : ∀ user ∈ copyIn, user.cap ≠ 0 → user.capRights ≠ 0) :
    Counts k (.ipcSend handle buf copyIn) := by
  refine wp_actBind trivial fun r => ⟨_, rfl, ?_⟩
  cases r with
  | none => exact ⟨rfl, rfl, fun _ _ => rfl⟩
  | some port =>
    cases hin : (if buf = 0 then none else copyIn) with
    | none => exact wp_releasePort_pure rfl ⟨rfl, rfl, fun _ _ => rfl⟩
    | some user =>
      have hcopy : copyIn = some user := (ite_none_left_eq_some.mp hin).2
      refine wp_bind.mpr (wp_userMessageToIpc (hcap user hcopy) fun ok m => ?_)
      cases ok with
      | false => exact wp_bind.mpr (wp_releaseAll rfl (wp_releasePort_pure rfl ⟨rfl, rfl, fun _ _ => rfl⟩))
      | true =>
        refine wp_bind.mpr (wp_sendMessage ?_ fun sent g' hrefs _ hwait _ hclean => ?_)
        · rw [← singleton_add, add_comm]
          exact le_rfl
        · refine wp_bind.mpr (wp_releaseAll hrefs (wp_releasePort_pure rfl ⟨rfl, hwait, ?_⟩))
          intro hf hs
          cases sent with
          | true => cases hf
          | false => exact hclean rfl hs rfl

theorem done_deliver {sys : Syscall} (hsys : ∀ r, sys.failed r = decide (r = -1))
    (hrefs : g.refs = 0) (hwait : g.wait = none) (hsmooth : g.smooth = true → copyOut = true) :
    Share.Done sys (if copyOut then 0 else -1) g := by
  refine ⟨hrefs, hwait, fun hf hs => ?_⟩
  rw [hsmooth hs, hsys] at hf
  cases hf

theorem wp_nativeSysIpcRecv :
    Counts k (.ipcRecv handle buf copyOut) := by
  refine wp_actBind trivial fun r => ⟨_, rfl, ?_⟩
  cases r with
  | none => exact ⟨rfl, rfl, fun _ _ => rfl⟩
  | some port =>
    simp only
    by_cases hb : buf = 0
    · rw [if_pos hb]
      exact wp_releasePort_pure rfl ⟨rfl, rfl, fun _ _ => rfl⟩
    · rw [if_neg hb]
      refine wp_bind.mpr (wp_ipcRecv (.recv port) rfl (List.nodup_singleton _) fun y => ?_)
      exact wp_deliver (R := 0) rfl fun clean _ => done_deliver (fun _ => rfl) rfl rfl id

theorem wp_nativeSysIpcTryRecv :
    Counts k (.ipcTryRecv handle buf copyOut) := by
  refine wp_actBind trivial fun r => ⟨_, rfl, ?_⟩
  cases r with
  | none => exact ⟨rfl, rfl, fun _ _ => rfl⟩
  | some port =>
    simp only
    by_cases hb : buf = 0
    · rw [if_pos hb]
      exact wp_releasePort_pure rfl ⟨rfl, rfl, fun _ _ => rfl⟩
    rw [if_neg hb]
    refine wp_actBind trivial fun r => ⟨_, rfl, ?_⟩
    cases r with
    | none => exact wp_releasePort_pure rfl ⟨rfl, rfl, fun hf => by cases hf⟩
    | some m => exact wp_deliver (R := 0) rfl fun clean _ => done_deliver (fun _ => rfl) rfl rfl id

theorem wp_portsFromHandles (hg : g.refs = ((ports.map Obj.port : List Obj) : Multiset Obj))
    {Q : Option (List PortId) → Share → Prop} (hnone : Q none { g with refs := 0 })
    (hsome : ∀ ports, Q (some ports) { g with refs := ((ports.map Obj.port : List Obj) : Multiset Obj) }) :
    wp (sendDiscipline k) (portsFromHandles handles ports) Q g := by
  induction handles generalizing g ports with
  | nil =>
    have h := hsome ports
    rw [← hg] at h
    exact h
  | cons handle handles ih =>
    refine wp_actBind trivial fun r => ⟨_, rfl, ?_⟩
    cases r with
    | none =>
      refine wp_bind.mpr (wp_releaseAll (R := 0) ?_ hnone)
      simp [hg]
    | some port =>
      refine ih ?_ hnone hsome
      rw [hg, add_comm, coe_add, List.map_append]
      rfl

theorem wp_nativeSysIpcRecvAny {handlesBuf messageBuf indexBuf copyIn} :
    Counts k (.ipcRecvAny handlesBuf messageBuf indexBuf handles copyIn copyOut) := by
  simp only [Counts, Syscall.prog, nativeSysIpcRecvAny]
  by_cases hargs : handlesBuf = 0 ∨ messageBuf = 0 ∨ indexBuf = 0 ∨ handles = [] ∨
      ipcRecvAnyMax < handles.length ∨ copyIn = false
  · rw [if_pos hargs]
    exact ⟨rfl, rfl, fun _ _ => rfl⟩
  rw [if_neg hargs]
  refine wp_bind.mpr (wp_portsFromHandles rfl ⟨rfl, rfl, fun _ _ => rfl⟩ fun ports => ?_)
  simp only
  unfold ipcRecvAny
  by_cases hvalid : (RecvCall.recvAny ports).valid = true
  · rw [if_pos hvalid]
    refine wp_bind.mpr (wp_bind.mpr (wp_ipcRecv (.recvAny ports) rfl (RecvCall.nodup_of_valid hvalid) fun y => ?_))
    exact wp_deliver (R := 0) (by simp) fun clean _ => done_deliver (fun _ => rfl) rfl rfl id
  · rw [if_neg hvalid]
    refine wp_bind.mpr (wp_bind.mpr (wp_releaseAll (R := 0) ?_ ⟨rfl, rfl, fun _ _ => rfl⟩))
    simp

theorem coe_refs (m : IpcMessage) : (m.refs : Multiset Obj) =
    (m.cap.toList : Multiset Obj) + ((m.replyPort.toList.map Obj.port : List Obj) : Multiset Obj) := by
  rw [coe_add]
  cases h : m.replyPort <;> simp [IpcMessage.refs, h]

theorem wp_sendRequest {port replyPort : PortId}
    (hg : g.refs = (m.refs : Multiset Obj) + {.port port}) (hwait : g.wait = none)
    (hclean : g.clean = true) (hsmooth : g.smooth = copyOut) :
    wp (sendDiscipline k) (do
        let sent ← sendMessage port m
        ipcMessageRelease m
        if sent then do
          let (_, reply) ← ipcRecv (.recv replyPort)
          deliver k [port] reply copyOut
        else do
          act (.release (.port port))
          pure (-1))
      (Share.Done (.ipcCall handle buf replyBuf copyIn copyOut)) g := by
  refine wp_bind.mpr (wp_sendMessage ?_ fun sent g' hrefs _ hwait' hsmooth' hclean' => ?_)
  · rw [hg, ← singleton_add, add_comm]
  rw [hwait] at hwait'
  refine wp_bind.mpr (wp_releaseAll (hrefs.trans hg) ?_)
  cases sent with
  | false => exact wp_releasePort_pure rfl ⟨rfl, hwait', fun _ hs => hclean' rfl hs hclean⟩
  | true =>
    refine wp_bind.mpr (wp_ipcRecv (.recv replyPort) (by exact hwait') (List.nodup_singleton _) fun y => ?_)
    refine wp_deliver (R := 0) rfl fun clean _ => done_deliver (fun _ => rfl) rfl hwait' fun hs => ?_
    rw [← hsmooth]
    exact hsmooth' hs

theorem wp_nativeSysIpcCall (hcap : ∀ user ∈ copyIn, user.cap ≠ 0 → user.capRights ≠ 0) :
    Counts k (.ipcCall handle buf replyBuf copyIn copyOut) := by
  refine wp_actBind trivial fun port => ⟨_, rfl, ?_⟩
  refine wp_actBind trivial fun replyPort => ⟨_, rfl, ?_⟩
  have hfail : ∀ g : Share, g.refs = ((port.toList.map Obj.port : List Obj) : Multiset Obj) + 0 →
      g.wait = none → g.clean = true → wp (sendDiscipline k) (do releasePorts port.toList; pure (-1))
        (Share.Done (.ipcCall handle buf replyBuf copyIn copyOut)) g := fun g hg hw hc =>
    wp_bind.mpr (wp_releaseAll hg ⟨rfl, hw, fun _ _ => hc⟩)
  cases port with
  | none => exact hfail _ rfl rfl rfl
  | some port =>
  cases replyPort with
  | none => exact hfail _ rfl rfl rfl
  | some replyPort =>
  cases hin : (if buf = 0 ∨ replyBuf = 0 then none else copyIn) with
  | none => exact hfail _ rfl rfl rfl
  | some user =>
    have hcopy : copyIn = some user := (ite_none_left_eq_some.mp hin).2
    refine wp_bind.mpr (wp_userMessageToIpc (hcap user hcopy) fun ok m => ?_)
    cases ok with
    | false => exact wp_bind.mpr (wp_releaseAll rfl (wp_releasePort_pure rfl ⟨rfl, rfl, fun _ _ => rfl⟩))
    | true =>
      -- the reply port named by the user gives way to the task's own
      refine wp_bind.mpr (wp_releaseAll (R := (m.cap.toList : Multiset Obj) + {.port port}) ?_ ?_)
      · show (m.refs : Multiset Obj) + {Obj.port port} = _
        rw [coe_refs]
        abel
      refine wp_actBind (.inr (by simp)) fun _ => ⟨_, rfl, ?_⟩
      refine wp_sendRequest ?_ rfl rfl rfl
      rw [coe_refs, ← singleton_add, add_left_comm, ← add_assoc]
      rfl

theorem wp_nativeSysPortCreate {copyIn : Bool} :
    Counts k (.portCreate copyIn) := by
  cases copyIn with
  | false => exact ⟨rfl, rfl, fun _ _ => rfl⟩
  | true =>
    refine wp_actBind trivial fun port => ⟨_, rfl, ?_⟩
    cases port with
    | none => exact ⟨rfl, rfl, fun _ _ => rfl⟩
    | some port =>
      refine wp_actBind ⟨.inl rfl, .inr (List.mem_cons_self ..)⟩ fun handle => ⟨_, rfl, ?_⟩
      refine ⟨rfl, rfl, fun hf _ => ?_⟩
      have hcases : ((handle : Nat) : Int) = -1 ∨ ((handle : Nat) : Int) = 0 := by
        simpa only [Syscall.failed, or_eq_true, decide_eq_true_eq] using hf
      have hzero : handle = 0 := by
        rcases hcases with h | h
        · cases h
        · exact Int.ofNat_eq_zero.mp h
      simp [hzero, Share.start]

theorem wp_nativeSysBufferCreate {size : Nat} :
    Counts k (.bufferCreate size) := by
  simp only [Counts, Syscall.prog, nativeSysBufferCreate]
  by_cases hsize : size = 0 ∨ bufferMaxSize < size
  · rw [if_pos hsize]
    exact ⟨rfl, rfl, fun _ _ => rfl⟩
  rw [if_neg hsize]
  refine wp_actBind trivial fun b => ⟨_, rfl, ?_⟩
  cases b with
  | none => exact ⟨rfl, rfl, fun _ _ => rfl⟩
  | some b =>
    refine wp_actBind ⟨.inl rfl, .inl (by simp)⟩ fun handle => ⟨_, rfl, ?_⟩
    refine wp_bind.mpr (wp_release (R := 0) rfl ⟨rfl, rfl, fun hf _ => ?_⟩)
    have hzero : handle = 0 := by
      by_contra hne
      simp only [Syscall.failed, if_neg hne, decide_eq_true_eq] at hf
      omega
    simp [hzero, Share.start]

theorem wp_taskCloseHandle {task : TaskId} (htask : g.mayUse k task)
    {Q : Bool → Share → Prop} (hfalse : Q false g) (htrue : Q true { g with clean := false }) :
    wp (sendDiscipline k) (taskCloseHandle task handle) Q g := by
  refine wp_actBind htask fun r => ⟨_, rfl, ?_⟩
  cases r with
  | none =>
    simp only [toList_none, coe_nil, zero_add, isNone_none, Bool.and_true]
    exact hfalse
  | some o =>
    simp only [isNone_some, Bool.and_false]
    exact wp_bind.mpr (wp_release rfl htrue)

theorem wp_nativeSysHandleClose :
    Counts k (.handleClose handle) := by
  refine wp_bind.mpr (wp_taskCloseHandle (.inl rfl) ?_ ?_)
  · exact ⟨rfl, rfl, fun _ _ => rfl⟩
  · exact ⟨rfl, rfl, fun hf => by cases hf⟩

theorem wp_taskGrantInheritedHandle {dst src : TaskId} (hdst : g.mayUse k dst) {Q : Nat → Share → Prop}
    (hQ : ∀ granted clean, (granted = 0 → clean = g.clean) → Q granted { g with clean }) :
    wp (sendDiscipline k) (taskGrantInheritedHandle dst src handle rights) Q g := by
  refine wp_actBind trivial fun r => ⟨_, rfl, ?_⟩
  cases r with
  | none =>
    simp only [toList_none, coe_nil, zero_add]
    exact hQ 0 g.clean fun _ => rfl
  | some o =>
    refine wp_actBind ⟨?_, .inl ?_⟩ fun granted => ⟨_, rfl, ?_⟩
    · exact hdst.imp_right fun h => mem_add.mpr (.inr h)
    · simp
    · refine wp_bind.mpr (wp_release rfl (hQ granted _ fun hzero => ?_))
      simp [hzero]

/-- **Granting to another task.** A result of 0 means that the handle was not there, was not
granted, or could not be tagged because it had been closed meanwhile. -/
theorem wp_serverTaskGrantTagged (hg : g.refs = 0) {Q : Nat → Share → Prop}
    (hQ : ∀ granted clean smooth, (smooth = true → g.smooth = true) →
      (granted = 0 → smooth = true → clean = g.clean) → Q granted { g with clean, smooth }) :
    wp (sendDiscipline k) (serverTaskGrantTagged k taskHandle handle rights tag) Q g := by
  refine wp_actBind trivial fun task => ⟨_, rfl, ?_⟩
  cases task with
  | none =>
    simp only [map_none, toList_none, coe_nil, zero_add]
    exact hQ 0 g.clean g.smooth id fun _ _ => rfl
  | some task =>
    have hrefs : ∀ {g' : Share} {granted : Nat}, g'.refs = Obj.task task ::ₘ 0 →
        Q granted { g' with refs := 0 } →
        wp (sendDiscipline k) (do act (.release (.task task)); pure granted) Q g' :=
      fun h hQ => wp_bind.mpr (wp_release h hQ)
    have huse : ∀ {g' : Share}, g'.refs = Obj.task task ::ₘ 0 → g'.mayUse k task := by
      intro g' h
      right
      rw [h]
      exact mem_cons_self ..
    rw [hg]
    refine wp_bind.mpr (wp_taskGrantInheritedHandle (huse rfl) fun granted clean hclean => ?_)
    have hdone : ∀ {granted : Nat} {clean smooth : Bool}, (smooth = true → g.smooth = true) →
        (granted = 0 → smooth = true → clean = g.clean) →
        Q granted { g with refs := 0, clean, smooth } := by
      intro granted clean smooth hs hc
      rw [← hg]
      exact hQ granted clean smooth hs hc
    by_cases htag : granted ≠ 0 ∧ tag ≠ 0
    · simp only [if_pos htag]
      refine wp_actBind (huse rfl) fun ok => ⟨_, rfl, ?_⟩
      cases ok with
      | true =>
        refine hrefs rfl (hdone ?_ fun hzero => absurd hzero htag.1)
        exact fun hs => (Bool.and_eq_true_iff.mp hs).1
      | false =>
        have hrough : ∀ {clean : Bool}, Q 0 { g with refs := 0, clean, smooth := false } :=
          hdone (fun hs => by cases hs) fun _ hs => by cases hs
        simp only [Bool.and_false]
        refine wp_bind.mpr (wp_taskCloseHandle (huse rfl) ?_ ?_)
        · exact hrefs rfl hrough
        · exact hrefs rfl hrough
    · simp only [if_neg htag]
      exact hrefs rfl (hdone id fun hzero _ => hclean hzero)

theorem wp_nativeSysTaskGrant :
    Counts k (.taskGrant taskHandle handle rights) := by
  refine wp_bind.mpr (wp_serverTaskGrantTagged rfl fun granted clean smooth _ hclean => ?_)
  refine ⟨rfl, rfl, fun hf hs => ?_⟩
  by_cases hzero : granted = 0
  · exact hclean hzero hs
  · rw [if_neg hzero] at hf
    cases hf

theorem wp_nativeSysTaskGrantTagged :
    Counts k (.taskGrantTagged taskHandle handle rights tag) := by
  refine wp_bind.mpr (wp_serverTaskGrantTagged rfl fun granted clean smooth _ hclean => ?_)
  refine ⟨rfl, rfl, fun hf hs => hclean ?_ hs⟩
  simp only [Syscall.failed, or_eq_true, decide_eq_true_eq] at hf
  omega

/-- **Every counted call keeps the discipline.** -/
theorem wp_prog {sys} (h : sys.Counted) :
    Counts k sys := by
  cases sys with
  | ipcSend => exact wp_nativeSysIpcSend h
  | ipcRecv => exact wp_nativeSysIpcRecv
  | ipcTryRecv => exact wp_nativeSysIpcTryRecv
  | ipcRecvAny => exact wp_nativeSysIpcRecvAny
  | ipcCall => exact wp_nativeSysIpcCall h
  | portCreate => exact wp_nativeSysPortCreate
  | bufferCreate => exact wp_nativeSysBufferCreate
  | handleClose => exact wp_nativeSysHandleClose
  | taskGrant => exact wp_nativeSysTaskGrant
  | taskGrantTagged => exact wp_nativeSysTaskGrantTagged
  | launchModule | taskCreate | fork => exact h.elim

end Bunix.Kernel
