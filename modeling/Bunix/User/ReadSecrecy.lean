import Bunix.User.FileStack
import Bunix.User.LinuxRequests
import Bunix.User.TmpfsContents

/-! # Who reads a file in tmpfs

Nobody on the way from a process to tmpfs asks whether the process may read a file. What keeps the
contents from a process is only that none of its descriptors stands for the file: then nothing it
gets by opening and reading files depends on these contents. The argument goes up server by server,
with two runs side by side that differ in the contents of the file.
-/
namespace Bunix.User

open Bunix.Lib Prog Linux List

variable {O β : Type} {env : StackEnv O} {i : InodeId} {message : VfsMessage} {request : FsRequest}
  {σ : LinuxCaches × FileStack O} {service handle task len : U64} {s : VfsServer} {file : VfsOpen}
  {C : CachedAction → Prop} {l : LinuxServer} {buf : Option (List UInt8)}

/-! ## tmpfs behind the VFS -/

/-- tmpfs and the outside, the same but for the contents of the file. -/
structure SameBelow (i : InodeId) (σ σ' : Tmpfs × O) : Prop where
  tmpfs : Tmpfs.SameBut i σ.1 σ'.1
  outside : σ'.2 = σ.2

/-- A request to tmpfs that does not take contents out of the file. -/
def Blind (env : StackEnv O) (i : InodeId) (message : VfsMessage) : VfsAction → Tmpfs × O → Prop
  | .call service request, σ => service = env.tmpfsService → ∀ r, tmpfsRequest message request = some r →
      Tmpfs.accessesFile r = true ∧ ∀ handle, Tmpfs.readsFrom r = some handle → ¬ σ.1.Leads handle i
  | _, _ => True

theorem tmpfsCall_same {σ σ' : Tmpfs × O} (h : SameBelow i σ σ')
    (hblind : ∀ r, tmpfsRequest message request = some r → Tmpfs.accessesFile r = true ∧
      ∀ handle, Tmpfs.readsFrom r = some handle → ¬ σ.1.Leads handle i) :
    Agree (SameBelow i) (tmpfsCall env message request σ) (tmpfsCall env message request σ') := by
  unfold tmpfsCall
  cases hr : tmpfsRequest message request with
  | none =>
    rw [h.tmpfs.senderIsVfsCaller]
    exact ⟨rfl, h⟩
  | some r =>
    obtain ⟨haccess, hread⟩ := hblind r hr
    dsimp only
    rw [h.outside]
    exact Tmpfs.rel_elim (Tmpfs.step_sameBut h.tmpfs { env.tmpfs σ.2 with
        buffer := request.carriesBuffer } env.vfsTask haccess hread) ⟨rfl, h⟩ fun ⟨ht⟩ => ⟨rfl, ht, rfl⟩

theorem vfsAnswer_tmpfs (h : service = env.tmpfsService) (request : FsRequest)
    (σ : Tmpfs × O) : vfsAnswer env message (.call service request) σ = tmpfsCall env message request σ :=
  if_pos h

theorem vfsAnswer_other (h : service ≠ env.tmpfsService) (request : FsRequest) (σ : Tmpfs × O) :
    vfsAnswer env message (.call service request) σ = vfsOutside env (.call service request) σ :=
  if_neg h

theorem vfsAnswer_same (a : VfsAction) {σ σ' : Tmpfs × O} (h : SameBelow i σ σ')
    (hblind : Blind env i message a σ) :
    Agree (SameBelow i) (vfsAnswer env message a σ) (vfsAnswer env message a σ') := by
  have houtside : Agree (SameBelow i) (vfsOutside env a σ) (vfsOutside env a σ') := by
    unfold vfsOutside
    rw [h.outside]
    exact ⟨rfl, h.tmpfs, rfl⟩
  cases a with
  | call service request =>
    by_cases hservice : service = env.tmpfsService
    · rw [vfsAnswer_tmpfs hservice, vfsAnswer_tmpfs hservice]
      exact tmpfsCall_same h (hblind hservice)
    · rw [vfsAnswer_other hservice, vfsAnswer_other hservice]
      exact houtside
  | _ => exact houtside

/-! ## The VFS behind the Linux server -/

/-- The servers behind the Linux server, the same but for the contents of the file. -/
structure SameBehind (i : InodeId) (σ σ' : FileStack O) : Prop where
  vfs : σ'.vfs = σ.vfs
  tmpfs : Tmpfs.SameBut i σ.tmpfs σ'.tmpfs
  outside : σ'.outside = σ.outside

/-- A handle of the VFS stands for the file with the inode `i`. -/
def FileStack.Leads (env : StackEnv O) (σ : FileStack O) (handle : U64) (i : InodeId) : Prop :=
  ∃ file, σ.vfs.openFiles.lookup handle = some file ∧ file.service = env.tmpfsService ∧
    σ.tmpfs.Leads file.remoteHandle i

instance (σ : FileStack O) (handle : U64) (i : InodeId) : Decidable (σ.Leads env handle i) :=
  decidable_of_iff ((σ.vfs.openFiles.lookup handle).any fun file =>
      file.service == env.tmpfsService && decide (σ.tmpfs.Leads file.remoteHandle i)) <| by
    simp [FileStack.Leads, Option.any_eq_true]

def readTypes : List VfsOp := [.readFileBuffer, .mmapPageBuffer]

/-- A message that is about files, and that does not ask for the contents of the file. -/
structure Discreet (env : StackEnv O) (i : InodeId) (σ : FileStack O) (message : VfsMessage) : Prop where
  type : message.type ∈ openTypes ++ .writeFileBuffer :: readTypes
  read : message.type ∈ readTypes → ¬ σ.Leads env message.word0 i

/-- What the VFS asks for a message is of the type of the message, or it is to follow links or to
close a file again. -/
theorem mayAsk_types (s : VfsServer) (message : VfsMessage) : MayAsk (fun _ _ => True)
    (fun request => request.type ∈ [message.type, .statPathMetaBuffer, .readlinkBuffer, .close])
    s message where
  close := fun _ _ _ => .inl (by simp)
  links := fun _ _ _ _ htype => by
    rcases htype with rfl | rfl <;> simp [pathRequest]
  path := fun _ => mem_cons_self
  ownPaths := fun _ _ _ _ _ => mem_cons_self
  symlink := fun _ htype _ => by simp [htype]
  twoPaths := fun _ htype _ => by simp [htype]
  readdir := fun _ _ _ _ _ _ => mem_cons_self
  handle := fun _ _ => mem_cons_self

theorem quiet_request (htype : request.type ∈ openTypes ++ [.writeFileBuffer, .readlinkBuffer])
    (hr : tmpfsRequest message request = some r) :
    Tmpfs.accessesFile r = true ∧ Tmpfs.readsFrom r = none := by
  unfold tmpfsRequest at hr
  simp only [openTypes, cons_append, nil_append, mem_cons, not_mem_nil, or_false] at htype
  rcases htype with he | he | he | he | he | he | he | he <;>
    · rw [he] at hr
      obtain rfl := Option.some.inj hr
      first
        | exact ⟨rfl, rfl⟩
        | split <;> exact ⟨rfl, rfl⟩

theorem along_quiet {σ : Tmpfs × O} (htype : message.type ∈ openTypes ++ [.writeFileBuffer]) :
    Along (vfsAnswer env message) (Blind env i message) (vfsServe message s) σ := by
  refine (Only.along (asks_vfsServe (mayAsk_types s message))).mono fun a σ ha => ?_
  cases a with
  | call service request =>
    intro _ r hr
    have hrequest : request.type ∈ openTypes ++ [.writeFileBuffer, .readlinkBuffer] := by
      rcases mem_cons.mp ha with he | he
      · rw [he]
        simp only [mem_append, mem_cons, not_mem_nil, or_false] at htype ⊢
        exact htype.imp_right .inl
      · revert he
        generalize request.type = type
        decide +revert
    obtain ⟨haccess, hread⟩ := quiet_request hrequest hr
    refine ⟨haccess, fun handle hhandle => ?_⟩
    rw [hread] at hhandle
    cases hhandle
  | _ => trivial

theorem read_request (s : VfsServer) (handle : U64) (htype : message.type ∈ readTypes) :
    ∃ r, tmpfsRequest message (handleRequest (withSubject s message) handle) = some r ∧
      Tmpfs.accessesFile r = true ∧ Tmpfs.readsFrom r = some handle := by
  have hsame : (handleRequest (withSubject s message) handle).type = message.type := rfl
  unfold tmpfsRequest
  rw [hsame]
  simp only [readTypes, mem_cons, not_mem_nil, or_false] at htype
  rcases htype with he | he <;>
    · rw [he]
      exact ⟨_, rfl, rfl, rfl⟩

theorem forwardRemoteHandle_zero (hfile : file.service = 0 ∨ file.remoteHandle = 0) :
    forwardRemoteHandle file message s = .ret ((false, .error VfsErr.fail), s) := by
  show (if file.service = 0 ∨ file.remoteHandle = 0 then
    (pure (false, .error VfsErr.fail) : VfsM (Bool × VfsReply)) else _) s = _
  rw [if_pos hfile]
  rfl

theorem forwardRemoteHandle_call
    (hfile : ¬ (file.service = 0 ∨ file.remoteHandle = 0)) (hdir : message.type ≠ .readdirBuffer) :
    forwardRemoteHandle file message s =
      .act (.call file.service (handleRequest (withSubject s message) file.remoteHandle)) fun answer =>
        .ret ((answer.isSome, answer.getD (.error VfsErr.fail)), s) := by
  show (if file.service = 0 ∨ file.remoteHandle = 0 then
    (pure (false, .error VfsErr.fail) : VfsM (Bool × VfsReply)) else
      if message.type = .readdirBuffer then _ else _) s = _
  rw [if_neg hfile, if_neg hdir]
  show Prog.act _ _ = Prog.act _ _
  congr 1
  funext answer
  cases answer <;> rfl

theorem vfsServe_read (htype : message.type ∈ readTypes) :
    (∃ reply, vfsServe message s = .ret (reply, s)) ∨
    ∃ file k, s.openFiles.lookup message.word0 = some file ∧ vfsServe message s =
        .act (.call file.service (handleRequest (withSubject s message) file.remoteHandle)) k ∧
      ∀ answer, ∃ reply, k answer = .ret (reply, s) := by
  have hserve : vfsServe message = withHandle message VfsErr.fail := by
    simp only [readTypes, mem_cons, not_mem_nil, or_false] at htype
    unfold vfsServe
    rcases htype with he | he <;> rw [he]
  have hdir : message.type ≠ .readdirBuffer := by
    intro he
    rw [he] at htype
    revert htype
    decide
  rw [hserve, withHandle, get_bind_run]
  cases hopen : s.openFromMessage message with
  | none => exact .inl ⟨.error VfsErr.fail, rfl⟩
  | some file =>
    obtain ⟨hlookup, -⟩ := Option.filter_eq_some_iff.mp hopen
    by_cases hfile : file.service = 0 ∨ file.remoteHandle = 0
    · refine .inl ⟨.error VfsErr.fail, ?_⟩
      show (forwardRemoteHandle file message s).bind _ = _
      rw [forwardRemoteHandle_zero hfile]
      rfl
    · refine .inr ⟨file, fun answer => .ret (answer.getD (.error VfsErr.fail), s), hlookup, ?_,
        fun answer => ⟨_, rfl⟩⟩
      show (forwardRemoteHandle file message s).bind _ = _
      rw [forwardRemoteHandle_call hfile hdir]
      rfl

theorem along_read {σ : FileStack O} (htype : message.type ∈ readTypes)
    (hread : ¬ σ.Leads env message.word0 i) :
    Along (vfsAnswer env message) (Blind env i message) (vfsServe message σ.vfs)
      (σ.tmpfs, σ.outside) := by
  rcases vfsServe_read htype with ⟨reply, he⟩ | ⟨file, k, hlookup, he, hk⟩
  · rw [he]
    trivial
  rw [he]
  refine ⟨fun hservice r hr => ?_, ?_⟩
  · obtain ⟨r', hr', haccess, hfrom⟩ := read_request σ.vfs file.remoteHandle htype
    obtain rfl : r' = r := Option.some.inj (hr'.symm.trans hr)
    refine ⟨haccess, fun handle hhandle hleads => ?_⟩
    obtain rfl : file.remoteHandle = handle := Option.some.inj (hfrom.symm.trans hhandle)
    exact hread ⟨file, hlookup, hservice, hleads⟩
  · obtain ⟨reply, hret⟩ := hk (vfsAnswer env message (.call file.service _) (σ.tmpfs, σ.outside)).1
    rw [hret]
    trivial

theorem vfsAnswer_read_tmpfs {σ : Tmpfs × O} (htype : message.type ∈ readTypes) :
    (vfsAnswer env message (.call service (handleRequest (withSubject s message) handle)) σ).2.1 = σ.1 := by
  by_cases hservice : service = env.tmpfsService
  · rw [vfsAnswer_tmpfs hservice]
    obtain ⟨r, hr, -, hfrom⟩ := read_request s handle htype
    unfold tmpfsCall
    rw [hr]
    dsimp only
    split
    · rfl
    · rename_i reply t hstep
      exact Tmpfs.step_readsFrom hfrom hstep
  · rw [vfsAnswer_other hservice]
    rfl

theorem vfsCall_read (env : StackEnv O) {σ : FileStack O} (htype : message.type ∈ readTypes) :
    (vfsCall env message σ).2.vfs = σ.vfs ∧ (vfsCall env message σ).2.tmpfs = σ.tmpfs := by
  unfold vfsCall
  split
  swap
  · exact ⟨rfl, rfl⟩
  rcases vfsServe_read htype with ⟨reply, he⟩ | ⟨file, k, hlookup, he, hk⟩
  · rw [he]
    exact ⟨rfl, rfl⟩
  rw [he]
  obtain ⟨reply, hret⟩ := hk (vfsAnswer env message (.call file.service _) (σ.tmpfs, σ.outside)).1
  unfold Prog.exec
  rw [hret]
  exact ⟨rfl, vfsAnswer_read_tmpfs htype⟩

theorem vfsCall_same {σ σ' : FileStack O} (h : SameBehind i σ σ') (hmessage : Discreet env i σ message) :
    Agree (SameBehind i) (vfsCall env message σ) (vfsCall env message σ') := by
  have halong : Along (vfsAnswer env message) (Blind env i message) (vfsServe message σ.vfs)
      (σ.tmpfs, σ.outside) := by
    by_cases hread : message.type ∈ readTypes
    · exact along_read hread (hmessage.read hread)
    refine along_quiet ?_
    rcases mem_append.mp hmessage.type with hopen | hopen
    · exact mem_append_left _ hopen
    · rcases mem_cons.mp hopen with he | he
      · exact mem_append_right _ (mem_singleton.mpr he)
      · exact absurd he hread
  obtain ⟨hres, hbelow⟩ := exec_simulate (SameBelow i) (fun a _ _ => vfsAnswer_same a)
    (t := (σ'.tmpfs, σ'.outside)) ⟨h.tmpfs, h.outside⟩ halong
  unfold vfsCall
  rw [h.outside, h.vfs]
  split
  · rw [h.outside] at hres hbelow
    dsimp only
    rw [hres]
    exact ⟨rfl, rfl, hbelow.tmpfs, hbelow.outside⟩
  · exact ⟨rfl, h⟩

/-! ## The Linux server -/

/-- The servers with the caches of the Linux server, which are the same. -/
structure SameUnder (i : InodeId) (σ σ' : LinuxCaches × FileStack O) : Prop where
  caches : σ'.1 = σ.1
  behind : SameBehind i σ.2 σ'.2

/-- What the Linux server does without asking for the contents of the file. -/
def Keeping (env : StackEnv O) (i : InodeId) : CachedAction → LinuxCaches × FileStack O → Prop
  | .base (.vfs message), σ => Discreet env i σ.2 message
  | _, _ => True

theorem invalidate_same (a : LinuxAction) (h : SameUnder i σ σ') (ha : Keeping env i (.base a) σ) :
    Agree (SameUnder i) (invalidate (stackAnswer env) a σ) (invalidate (stackAnswer env) a σ') := by
  obtain ⟨c, b⟩ := σ
  obtain ⟨c', b'⟩ := σ'
  obtain ⟨rfl, hb⟩ : c' = c ∧ SameBehind i b b' := ⟨h.caches, h.behind⟩
  have houtside : ((env.linux a b'.outside).1 = (env.linux a b.outside).1) ∧
      SameUnder i (c', { b with outside := (env.linux a b.outside).2 })
        (c', { b' with outside := (env.linux a b'.outside).2 }) := by
    rw [hb.outside]
    exact ⟨rfl, rfl, hb.vfs, hb.tmpfs, rfl⟩
  cases a with
  | vfs message =>
    obtain ⟨hres, hbehind⟩ := vfsCall_same hb ha
    exact ⟨hres, rfl, hbehind⟩
  | alloc | buffer | readDevice fd len | writeDevice fd bytes | closeDevice fd | user task type args
  | mountCommand fstype target | now => exact houtside
  | _ => exact ⟨rfl, rfl, hb⟩

theorem withCaches_same (a : CachedAction) {σ' : LinuxCaches × FileStack O} (h : SameUnder i σ σ')
    (ha : Keeping env i a σ) :
    Agree (SameUnder i) (withCaches (stackAnswer env) a σ) (withCaches (stackAnswer env) a σ') := by
  cases a with
  | base a => exact invalidate_same a h ha
  | _ =>
    obtain ⟨c, b⟩ := σ
    obtain ⟨c', b'⟩ := σ'
    obtain ⟨rfl, hb⟩ : c' = c ∧ SameBehind i b b' := ⟨h.caches, h.behind⟩
    exact ⟨rfl, rfl, hb⟩

theorem quiet_not_read : ∀ type ∈ openTypes ++ [.writeFileBuffer], type ∉ readTypes := by
  decide

theorem along_quiet_calls
    (hm : AskedCached (fun message => message.type ∈ openTypes ++ [.writeFileBuffer]) C m l) :
    Along (withCaches (stackAnswer env)) (Keeping env i) (m l) σ := by
  refine (Only.along hm).mono fun a σ ha => ?_
  cases a with
  | base a =>
    cases a with
    | vfs message =>
      refine ⟨?_, fun hread => absurd hread (quiet_not_read _ ha)⟩
      rcases mem_append.mp ha with hopen | hwrite
      · exact mem_append_left _ hopen
      · exact mem_append_right _ (mem_cons.mpr (.inl (mem_singleton.mp hwrite)))
    | _ => trivial
  | _ => trivial

theorem along_reads {m : CachedM β}
    (hm : AskedCached (fun message => message.type ∈ readTypes ∧ message.word0 = handle) C m l)
    (hread : ¬ σ.2.Leads env handle i) :
    Along (withCaches (stackAnswer env)) (Keeping env i) (m l) σ := by
  have hall : Along (withCaches (stackAnswer env)) (fun _ _ => True) (m l) σ :=
    (Only.along hm).mono fun _ _ _ => trivial
  -- the servers that a read leads through stay as they are
  have hstep : ∀ (a : CachedAction) (σ : LinuxCaches × FileStack O), ¬ σ.2.Leads env handle i → True →
      Does (fun message => message.type ∈ readTypes ∧ message.word0 = handle) C a →
      True ∧ ¬ (withCaches (stackAnswer env) a σ).2.2.Leads env handle i := by
    intro a σ hσ _ ha
    refine ⟨trivial, ?_⟩
    cases a with
    | base a =>
      cases a with
      | vfs message =>
        obtain ⟨hvfs, htmpfs⟩ := @vfsCall_read O message env σ.2 ha.1
        rintro ⟨file, hlookup, hservice, hleads⟩
        refine hσ ⟨file, ?_, hservice, ?_⟩
        · exact (congrArg (fun v => v.openFiles.lookup handle) hvfs).symm.trans hlookup
        · exact htmpfs ▸ hleads
      | _ => exact hσ
    | _ => exact hσ
  refine (Only.exec (fun σ : LinuxCaches × FileStack O => ¬ σ.2.Leads env handle i) hstep hread hm
    hall).1.mono fun a σ ha => ?_
  cases a with
  | base a =>
    cases a with
    | vfs message =>
      obtain ⟨-, ⟨htype, hword⟩, hσ⟩ := ha
      refine ⟨mem_append_right _ (mem_cons_of_mem _ htype), fun _ => ?_⟩
      rw [hword]
      exact hσ
    | _ => trivial
  | _ => trivial

/-! ## Calls -/

/-- A descriptor of a task stands for the file with the inode `i`. -/
def StandsFor (env : StackEnv O) (s : LinuxServer × LinuxCaches × FileStack O) (task n : U64)
    (i : InodeId) : Prop :=
  s.2.2.Leads env (s.1.fd task n).handle i

instance (s : LinuxServer × LinuxCaches × FileStack O) (task n : U64) (i : InodeId) :
    Decidable (StandsFor env s task n i) :=
  inferInstanceAs (Decidable (s.2.2.Leads env (s.1.fd task n).handle i))

def isFileCall : LinuxCall → Bool
  | .openat .. | .read .. | .mmap .. | .sendfile .. => true
  | _ => false

/-- The descriptor that a call takes bytes from. -/
def readsFd : LinuxCall → Option U64
  | .read n _ _ | .mmap n _ _ _ | .sendfile _ n _ _ _ => some n
  | _ => none

theorem handle_fdSetOffset (l : LinuxServer) (task n offset : U64) :
    ((l.fdSetOffset task n offset).fd task n).handle = (l.fd task n).handle := by
  have hset : ((l.setFd task n { l.fd task n with offset }).fd task n).handle = (l.fd task n).handle := by
    rw [LinuxServer.fd_setFd]
    split
    · rfl
    · rw [l.fd_of_le task n (by omega)]
  unfold LinuxServer.fdSetOffset
  dsimp only
  split
  · exact hset
  · exact hset

theorem along_reading (hread : ¬ σ.2.Leads env (l.fd task n).handle i) :
    Along (withCaches (stackAnswer env)) (Keeping env i) (read task n len buf l) σ := by
  refine along_reads (asked_read fun message htype hword => ?_) hread
  rw [htype]
  exact ⟨by decide, hword⟩

theorem along_sendfile {outFd inFd offset} (hread : ¬ StandsFor env (l, σ) task inFd i) :
    Along (withCaches (stackAnswer env)) (Keeping env i)
      (sendfile task outFd inFd len offset buf l) σ := by
  have hwrite : ∀ value (bytes : List UInt8) (l : LinuxServer) σ, Along
      (withCaches (stackAnswer env)) (Keeping env i)
        ((liftM (write task outFd value (some bytes)) : CachedM Int) l) σ :=
    fun value bytes l σ =>
      along_quiet_calls (C := fun _ => False)
        (asked_lift (asked_write fun message htype => by simp [htype]))
  refine along_bindT.mpr ⟨trivial, ?_⟩
  split
  · trivial
  split
  · trivial
  refine along_bindT.mpr ⟨trivial, along_bindT.mpr ⟨?_, ?_⟩⟩
  · refine along_reading fun hleads => hread ?_
    show σ.2.Leads env (l.fd task inFd).handle i
    have hsame : ((if offset ≠ -1 then l.fdSetOffset task inFd offset else l).fd task inFd).handle =
        (l.fd task inFd).handle := by
      split
      · exact handle_fdSetOffset l task inFd offset
      · rfl
    rw [← hsame]
    exact hleads
  generalize exec (withCaches (stackAnswer env)) (read task inFd len buf _) _ = r
  obtain ⟨⟨result, l'⟩, σ'⟩ := r
  refine along_bindT.mpr ⟨trivial, along_bindT.mpr ⟨trivial, ?_⟩⟩
  by_cases hvalue : result.value ≤ 0
  · rw [if_pos hvalue]
    trivial
  · rw [if_neg hvalue]
    exact along_bindT.mpr ⟨hwrite _ _ _ _, trivial⟩

theorem along_serve {c : LinuxCall}
    (hcall : isFileCall c = true) (hread : ∀ n, readsFd c = some n → ¬ StandsFor env (l, σ) task n i) :
    Along (withCaches (stackAnswer env)) (Keeping env i) (serve task c l) σ := by
  refine along_bindT.mpr ⟨trivial, ?_⟩
  split
  · trivial
  cases c with
  | openat dirfd path flags mode =>
    refine along_quiet_calls (C := fun _ => False) (asked_lift ?_)
    refine .bind (asked_openat fun _ => mem_append_left _) fun n _ => ?_
    cases n <;> exact .pure _
  | read n len buf => exact along_reading (hread n rfl)
  | mmap n offset len buf =>
    refine along_reads (asked_mmapRead fun message htype hword => ?_) (hread n rfl)
    rw [htype]
    exact ⟨by decide, hword⟩
  | sendfile outFd inFd len offset buf => exact along_sendfile (hread inFd rfl)
  | _ => cases hcall

/-- The whole state, the same but for the contents of the file. -/
structure SameAll (i : InodeId) (s s' : LinuxServer × LinuxCaches × FileStack O) : Prop where
  server : s'.1 = s.1
  under : SameUnder i s.2 s'.2

theorem call_same {s s' : LinuxServer × LinuxCaches × FileStack O} {c : LinuxCall}
    (hcall : isFileCall c = true) (hread : ∀ n, readsFd c = some n → ¬ StandsFor env s task n i)
    (h : SameAll i s s') :
    Agree (SameAll i) (call (withCaches (stackAnswer env)) task c s)
      (call (withCaches (stackAnswer env)) task c s') := by
  obtain ⟨hres, hunder⟩ := exec_simulate (SameUnder i) (fun a _ _ => withCaches_same a) h.under
    (along_serve hcall hread)
  unfold call
  rw [h.server]
  dsimp only
  rw [hres]
  exact ⟨rfl, rfl, hunder⟩

/-- In the state before each call of a task, the descriptor that the call takes bytes from does not
stand for the file. -/
def Apart (env : StackEnv O) (i : InodeId) (task : U64) :
    List LinuxCall → LinuxServer × LinuxCaches × FileStack O → Prop
  | [], _ => True
  | c :: rest, s => (∀ n, readsFd c = some n → ¬ StandsFor env s task n i) ∧
      Apart env i task rest (call (withCaches (stackAnswer env)) task c s).2

instance decidableApart (task : U64) : (cs : List LinuxCall) →
    (s : LinuxServer × LinuxCaches × FileStack O) → Decidable (Apart env i task cs s)
  | [], _ => .isTrue trivial
  | c :: rest, s =>
    have := decidableApart task rest (call (withCaches (stackAnswer env)) task c s).2
    have : Decidable (∀ n, readsFd c = some n → ¬ StandsFor env s task n i) :=
      decidable_of_iff ((readsFd c).all fun n => decide (¬ StandsFor env s task n i)) <| by
        simp [Option.all_eq_true]
    instDecidableAnd

/-- What a task gets from a sequence of calls. -/
def resultsOf (env : StackEnv O) (task : U64) (cs : List LinuxCall)
    (s : LinuxServer × LinuxCaches × FileStack O) : List LinuxResult :=
  (calls (withCaches (stackAnswer env)) (cs.map fun c => (task, c)) s).1

theorem resultsOf_cons (task : U64) (c : LinuxCall) (cs : List LinuxCall)
    (s : LinuxServer × LinuxCaches × FileStack O) : resultsOf env task (c :: cs) s =
      (call (withCaches (stackAnswer env)) task c s).1 ::
        resultsOf env task cs (call (withCaches (stackAnswer env)) task c s).2 := rfl

theorem resultsOf_same {s s' : LinuxServer × LinuxCaches × FileStack O}
    {cs : List LinuxCall} (hcalls : ∀ c ∈ cs, isFileCall c = true) (h : SameAll i s s')
    (hapart : Apart env i task cs s) : resultsOf env task cs s' = resultsOf env task cs s := by
  induction cs generalizing s s' with
  | nil => rfl
  | cons c cs ih =>
    obtain ⟨hres, hall⟩ := call_same (hcalls c mem_cons_self) hapart.1 h
    rw [resultsOf_cons, resultsOf_cons, hres,
      ih (fun c hc => hcalls c (mem_cons_of_mem _ hc)) hall hapart.2]

/-- The contents of a file are replaced. -/
def FileStack.withContents (σ : FileStack O) (i : InodeId) (n : TmpfsInode) (data : List UInt8) :
    FileStack O :=
  { σ with tmpfs := σ.tmpfs.setInode i (some { n with data }) }

theorem sameBehind_withContents {σ : FileStack O} {n : TmpfsInode} {data : List UInt8}
    (hi : σ.tmpfs.inode i = some n) (htype : n.type = .regular) (hlength : data.length = n.data.length) :
    SameBehind i σ (σ.withContents i n data) := by
  have halike : Tmpfs.Alike i i n { n with data } :=
    ⟨rfl, hlength, fun h => h.elim (fun h => absurd rfl h) fun h => absurd htype h⟩
  have hsame : Tmpfs.SameBut i (σ.tmpfs.setInode i (some n)) (σ.tmpfs.setInode i (some { n with data })) :=
    (Tmpfs.SameBut.refl i σ.tmpfs).setInode i (.some halike)
  have hself : σ.tmpfs.setInode i (some n) = σ.tmpfs := by
    unfold Tmpfs.setInode
    rw [← hi, Function.update_eq_self]
  rw [hself] at hsame
  exact ⟨rfl, hsame, rfl⟩

/-- **What a task gets by opening and reading files does not depend on the contents of a file that
none of the descriptors it reads from stands for.** The caches of the Linux server are part of the
state that is the same with both contents. -/
theorem contents_not_returned {l : LinuxServer} {c : LinuxCaches} {σ : FileStack O} {n : TmpfsInode}
    {task : U64} {cs : List LinuxCall} (hi : σ.tmpfs.inode i = some n) (htype : n.type = .regular)
    (hcalls : ∀ c ∈ cs, isFileCall c = true) (hapart : Apart env i task cs (l, c, σ)) :
    ∀ data : List UInt8, data.length = n.data.length →
      resultsOf env task cs (l, c, σ.withContents i n data) = resultsOf env task cs (l, c, σ) := by
  intro data hlength
  exact resultsOf_same hcalls ⟨rfl, rfl, sameBehind_withContents hi htype hlength⟩ hapart

/-! ## A file of root -/

/-- A file that is root's own and has the mode 0600. -/
def secretInode : TmpfsInode where
  data := [83, 51, 67]
  size := 3
  ino := 2
  type := .regular
  mode := 0o600
  uid := 0
  gid := 0

/-- The file system after boot, with this file at `/f`. -/
def secretStack : FileStack Unit where
  vfs := {
    mounts := [{ path := ['/'], id := 1, service := 9, fstype := 0 }]
    subjectIssuers := [3] }
  tmpfs := {
    Tmpfs.init (fun _ => true) with
    index := fun path => if path = ['/', 'f'] then some 0 else none
    list := [0]
    file := fun f => if f = 0 then some { path := ['/', 'f'], refs := 1, inode := 0 } else none
    inode := fun i => if i = 0 then some secretInode else none
    nextFile := 1
    nextInode := 1
    nextInodeId := 3
    vfsCallers := [2] }
  outside := ()

/-- The Linux server, with the process of the task 7. -/
def secretServer : LinuxServer where
  self := 3
  process := fun task => if task = 7 then some { pid := 7, fds := replicate 4 {} } else none

/-- A task that makes a file of its own and reads it. -/
def ownFileCalls : List LinuxCall :=
  [.openat atFdcwd (some ['/', 'g']) 0o102 0o644, .read 0 3 (some [0, 0, 0])]

theorem contents_not_returned_own_file :
    secretStack.tmpfs.inode 0 = some secretInode ∧ secretInode.type = .regular ∧
    Apart rootEnv 0 7 ownFileCalls (secretServer, {}, secretStack) ∧
    resultsOf rootEnv 7 ownFileCalls (secretServer, {}, secretStack.withContents 0 secretInode [1, 2, 3]) =
      resultsOf rootEnv 7 ownFileCalls (secretServer, {}, secretStack) := by
  have hapart : Apart rootEnv 0 7 ownFileCalls (secretServer, {}, secretStack) := by decide +kernel
  exact ⟨rfl, rfl, hapart, contents_not_returned rfl rfl (by decide) hapart [1, 2, 3] rfl⟩

theorem contents_returned_to_denied :
    secretStack.tmpfs.inode 0 = some secretInode ∧ secretInode.type = .regular ∧
    (rootEnv.tmpfs secretStack.outside).geteuid 7 = some 1000 ∧
    Tmpfs.taskCanAccess (rootEnv.tmpfs secretStack.outside) 7 (some secretInode) 4 = false ∧
    resultsOf rootEnv 7 [.openat atFdcwd (some ['/', 'f']) 0 0, .read 0 3 (some [0, 0, 0])]
        (secretServer, {}, secretStack) =
      [{ value := 0 }, { value := 3, bytes := secretInode.data }] := by
  decide +kernel

end Bunix.User
