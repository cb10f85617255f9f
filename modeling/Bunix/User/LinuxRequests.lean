import Bunix.User.LinuxCalls

/-! # What the Linux server asks of the VFS

The messages that opening, reading and writing files lead to. `Asked P m s` says that every message
which `m` sends from the state `s` on meets `P`, whatever the answers are.
-/
namespace Bunix.User.Linux

open Bunix.Lib Prog

variable {P : VfsMessage → Prop} {s s' : LinuxServer}
  {task base word3 handle dirfd size flags mode : U64} {path : Path} {β γ : Type} {file fuel : Nat}
  {type : VfsOp} {reply : VfsReply} {key arg : Option Path}

def Messages (P : VfsMessage → Prop) : LinuxAction → Prop
  | .vfs message => P message
  | _ => True

instance : IsPreorder LinuxServer fun _ _ => True where
  refl := fun _ => trivial
  trans := fun _ _ _ _ _ => trivial

abbrev Asked (P : VfsMessage → Prop) (m : LinuxM β) (s : LinuxServer) : Prop :=
  Keeps (fun _ _ => True) (Messages P) (fun _ _ => True) m s

theorem asked_true (m : LinuxM β) (s : LinuxServer) : Asked (fun _ => True) m s := by
  unfold Asked Keeps
  generalize m s = p
  induction p with
  | ret b => trivial
  | act a k ih => exact ⟨by cases a <;> trivial, fun r _ => ih r⟩

/-- The same for the calls that look into the caches, which do with them only what meets `C`. -/
def Does (P : VfsMessage → Prop) (C : CachedAction → Prop) : CachedAction → Prop
  | .base a => Messages P a
  | a => C a

abbrev AskedCached (P : VfsMessage → Prop) (C : CachedAction → Prop) (m : CachedM β) (s : LinuxServer) :
    Prop :=
  Keeps (fun _ _ => True) (Does P C) (fun _ _ => True) m s

/-- What is done with the caches for the contents of files. -/
def OnContents : CachedAction → Prop
  | .readGet .. | .readPut .. | .aheadGet .. | .aheadPut .. | .aheadReady _ | .aheadReserve _ => True
  | _ => False

variable {C : CachedAction → Prop}

theorem only_liftProg (h : Only (fun _ _ => True) (Messages P) p fun _ => True) :
    Only (fun _ _ => True) (Does P C) (liftProg p) fun _ => True := by
  induction p with
  | ret b => trivial
  | act a k ih => exact ⟨h.1, fun r _ => ih r (h.2 r trivial)⟩

theorem asked_lift (h : Asked P m s) : AskedCached P C (liftM m) s := only_liftProg h

/-! ## Opening -/

def openTypes : List VfsOp :=
  [.openBuffer, .createBuffer, .statPathMetaBuffer, .unlinkBuffer, .truncate, .close]

theorem asked_vfsPathCallWord3 (hP : ∀ message : VfsMessage, message.type = type → P message) :
    Asked P (vfsPathCallWord3 task type base path word3) s := by
  refine .getBind (.bind (.act trivial) fun created s₁ => ?_)
  split
  · exact .pure _
  · exact .act (hP _ rfl)

section Opening

variable (hP : ∀ message : VfsMessage, message.type ∈ openTypes → P message)

include hP

theorem asked_pathCall (htype : type ∈ openTypes) :
    Asked P (vfsPathCallWord3 task type base path word3) s :=
  asked_vfsPathCallWord3 fun message he => hP message (he ▸ htype)

theorem asked_vfsPathCall : Asked P (vfsPathCall task .openBuffer base path) s := by
  exact .getBind (asked_pathCall hP (by decide))

theorem asked_vfsHandleCall {word1 word2} (htype : type ∈ openTypes) :
    Asked P (vfsHandleCall type handle word1 word2 word3) s := by
  exact .getBind (.act (hP _ htype))

theorem asked_closeRawVfsHandle : Asked P (closeRawVfsHandle handle) s := by
  unfold closeRawVfsHandle
  split
  · exact .pure _
  · exact .map (asked_vfsHandleCall hP (by decide))

omit hP in
theorem asked_fileRefAdd : Asked P (fileRefAdd handle) s := by
  unfold fileRefAdd
  split
  · exact .pure _
  · trivial

theorem asked_closeVfsHandle : Asked P (closeVfsHandle handle) s := by
  refine .getBind (.guard ?_)
  split
  · trivial
  · exact .setBind trivial (asked_closeRawVfsHandle hP)

theorem asked_ensureCwdHandle : Asked P (ensureCwdHandle task) s := by
  refine .getBind (.guard ?_)
  refine .bind (asked_vfsPathCall hP) fun reply s₁ => ?_
  split
  · exact .pure _
  split
  · exact .pure _
  · refine .bind trivial fun _ s₂ => ?_
    exact .map asked_fileRefAdd

theorem asked_dirfdBaseHandle : Asked P (dirfdBaseHandle task dirfd path) s := by
  refine .guard ?_
  split
  · exact .bind (asked_ensureCwdHandle hP) fun _ _ => .when (.getBind (.pure _))
  refine .getBind ?_
  refine .guard ?_
  split <;> exact .pure _

omit hP in
theorem asked_allocFd {kind} :
    Asked P (allocFd task kind handle size) s := by
  refine .getBind ?_
  dsimp only
  split
  · exact .setBind trivial (.pure _)
  · exact .bind (.act trivial) fun _ _ => .when (.setBind trivial (.pure _))

omit hP in
theorem asked_fdOpenFileCreate :
    Asked P (fdOpenFileCreate task n handle size) s := by
  exact .bind (.act trivial) fun _ _ => .when (.getBind (.setBind trivial (.map (.act trivial))))

theorem asked_unlinkHiddenPath : Asked P (unlinkHiddenPath task path) s := by
  refine .guard ?_
  refine .bind (asked_pathCall hP (by decide)) fun reply s₁ => ?_
  split
  · exact .pure _
  split
  · exact .act trivial
  · exact .pure _

theorem asked_openFileRefDrop : Asked P (openFileRefDrop task n) s := by
  refine .getBind ?_
  dsimp only
  split
  · split
    · exact .setBind trivial (.pure _)
    · refine .setBind trivial (.bind (asked_vfsHandleCall hP (by decide)) fun reply s₁ => ?_)
      cases reply <;> exact .pure _
  · exact .pure _

theorem asked_close : Asked P (close task n) s := by
  refine .getBind (.guard ?_)
  split
  · have hdrop : ∀ s, Asked P (do
        if ← openFileRefDrop task n then
          modify fun s => s.setFd task n {}
          return 0
        else return -Errno.eio) s := by
      intro s
      exact .bind (asked_openFileRefDrop hP) fun _ _ => .when (.map trivial)
    split
    · exact .bind (asked_unlinkHiddenPath hP) fun _ => hdrop
    · exact hdrop s
  · exact .bind (.act trivial) fun _ s₁ => .map trivial

theorem asked_unlinkHidden {hidden} (error : Int) (s : LinuxServer) : Asked P (do
    if let some path := hidden then unlinkHiddenPath task path
    return (.error error : Except Int U64)) s := by
  cases hidden with
  | none => exact .pure _
  | some path => exact .map (asked_unlinkHiddenPath hP)

theorem asked_openFd {kind hidden} :
    Asked P (openFd task kind reply key hidden flags) s := by
  refine .bind asked_allocFd fun n s₁ => ?_
  cases n with
  | error error => exact .bind (asked_closeRawVfsHandle hP) fun _ => asked_unlinkHidden hP error
  | ok n =>
    refine .bind asked_fdOpenFileCreate fun ok s₂ => ?_
    cases ok with
    | true => exact .map trivial
    | false =>
      exact .bind (asked_closeRawVfsHandle hP) fun _ _ =>
        .bind (asked_close hP) fun _ => asked_unlinkHidden hP _

theorem asked_reopenTmpfile {tmpPath tmpKey} :
    Asked P (reopenTmpfile task base tmpPath tmpKey flags) s := by
  refine .bind (asked_vfsPathCall hP) fun reply s₁ => ?_
  cases reply with
  | none => exact .map (asked_unlinkHiddenPath hP)
  | some reply =>
    dsimp only
    split
    · exact .map (asked_unlinkHiddenPath hP)
    split
    · exact .bind (asked_closeRawVfsHandle hP) fun _ _ =>
        .map (asked_unlinkHiddenPath hP)
    · exact asked_openFd hP

theorem asked_tmpfileLoop {key attempts} :
    Asked P (tmpfileLoop task base path key flags mode attempts) s := by
  induction attempts generalizing s with
  | zero => exact .pure _
  | succ attempts ih =>
    refine .bind trivial fun _ s₁ => .getBind ?_
    dsimp only
    split
    · refine .bind (asked_pathCall hP (by decide)) fun reply s₂ => ?_
      split
      · exact .pure _
      split
      · exact ih
      split
      · exact .pure _
      · exact .bind (.act trivial) fun _ _ => asked_reopenTmpfile hP
    · exact .pure _
    · exact .pure _

theorem asked_openTmpfile :
    Asked P (openTmpfile task path base flags mode key) s := by
  unfold openTmpfile
  split
  · exact .pure _
  split
  · exact .pure _
  refine .bind (asked_vfsPathCall hP) fun reply s₁ => ?_
  split
  · exact .pure _
  split
  · exact .pure _
  refine .bind (asked_closeRawVfsHandle hP) fun _ s₂ => ?_
  split
  · exact .pure _
  · exact asked_tmpfileLoop hP

theorem asked_openNofollow : Asked P (openNofollow task base path flags) s := by
  refine .guard ?_
  refine .bind (asked_pathCall hP (by decide)) fun reply s₁ => ?_
  cases reply <;> exact .pure _

theorem asked_openOrCreate :
    Asked P (openOrCreate task base path key flags mode) s := by
  refine .bind (asked_vfsPathCall hP) fun reply s₁ => ?_
  cases reply with
  | none => exact .pure _
  | some reply =>
    dsimp only
    split
    · exact .map (asked_closeRawVfsHandle hP)
    split
    swap
    · split
      · exact .pure _
      · exact .pure _
    refine .getBind (.bind (asked_pathCall hP (by decide)) fun reply s₂ => ?_)
    cases reply with
    | none => exact .pure _
    | some reply =>
      refine .guard ?_
      refine .bind (.act trivial) fun _ s₃ => .bind (asked_vfsPathCall hP) fun reply s₄ => ?_
      cases reply <;> exact .pure _

theorem asked_ftruncate {length} : Asked P (ftruncate task n length) s := by
  refine .getBind (.guard (.guard (.guard ?_)))
  dsimp only
  refine .bind (asked_vfsHandleCall hP (by decide)) fun reply s₁ => ?_
  split
  · exact .pure _
  split
  · exact .pure _
  split
  · exact .bind (.act trivial) fun _ _ => .bind trivial fun _ _ => .map (.act trivial)
  · exact .bind trivial fun _ _ => .map (.act trivial)

theorem asked_openReply :
    Asked P (openReply task reply key flags) s := by
  unfold openReply
  dsimp only
  split
  · exact .map (asked_closeRawVfsHandle hP)
  split
  · exact .map (asked_closeRawVfsHandle hP)
  split
  · exact .bind asked_allocFd fun _ _ => .map (asked_closeVfsHandle hP)
  refine .bind (asked_openFd hP) fun n s₁ => ?_
  split
  · exact .pure _
  refine .when ?_
  refine .bind (asked_ftruncate hP) fun result s₂ => ?_
  split
  · exact .map (asked_close hP)
  · exact .pure _

theorem asked_openat :
    Asked P (openat task dirfd arg flags mode) s := by
  unfold openat
  split
  · exact .pure _
  refine .getBind ?_
  split
  · exact .pure _
  refine .bind (asked_dirfdBaseHandle hP) fun base s₁ => ?_
  split
  · exact .pure _
  refine .getBind (.guard ?_)
  split
  · exact asked_openTmpfile hP
  refine .bind (asked_openNofollow hP) fun found s₂ => ?_
  cases found with
  | true => exact .pure _
  | false =>
    refine .bind (asked_openOrCreate hP) fun reply s₃ => ?_
    cases reply with
    | error error => exact .pure _
    | ok reply => exact asked_openReply hP

end Opening

/-! ## Reading and writing -/

theorem asked_vfsReadCall {offset len}
    (hP : ∀ message : VfsMessage, message.type = type → message.word0 = handle → P message) :
    Asked P (vfsReadCall type handle offset len) s := by
  exact .getBind (.act (hP _ rfl rfl))

section Reading

variable {fd : LinuxFd} {n offset len requested : U64} {buf : List UInt8}
  (hP : ∀ message : VfsMessage, message.type = .readFileBuffer → message.word0 = fd.handle → P message)

include hP

omit hP in
theorem asked_readBufferReady : AskedCached P OnContents (readBufferReady file) s := by
  refine .bind (.act trivial) fun ready s₁ => ?_
  cases ready with
  | true => exact .pure _
  | false =>
    exact .bind (asked_lift (.act trivial)) fun _ _ => .when (.map (.act trivial))

omit hP in
theorem asked_readaheadOf : AskedCached P OnContents (readaheadOf fd offset len) s := by
  unfold readaheadOf
  split
  · exact .pure _
  · exact .act trivial

theorem asked_readaheadFill : AskedCached P OnContents (readaheadFill fd offset len) s := by
  refine .getBind ?_
  split
  swap
  · exact .pure _
  refine .guard ?_
  refine .bind asked_readBufferReady fun ready s₁ => ?_
  refine .guard ?_
  refine .guard ?_
  refine .bind (asked_lift (.act trivial)) fun created s₂ => ?_
  refine .when ?_
  refine .bind (asked_lift (asked_vfsReadCall hP)) fun reply s₃ => ?_
  cases reply with
  | none => exact .map (asked_lift (.act trivial))
  | some reply =>
    dsimp only
    split
    · exact .map (asked_lift (.act trivial))
    · exact .bind (.act trivial) fun _ _ => .act trivial

theorem asked_readAhead : AskedCached P OnContents (readAhead fd offset len buf) s := by
  refine .guard ?_
  refine .bind asked_readaheadOf fun got s₁ => ?_
  split
  · exact .pure _
  · exact .map (asked_readaheadFill hP)

theorem asked_readCached : AskedCached P OnContents (readCached fd offset len buf) s := by
  refine .getBind (.guard ?_)
  refine .bind (asked_readAhead hP) fun ahead s₁ => ?_
  cases ahead with
  | some bytes => exact .pure _
  | none =>
    dsimp only
    split
    · exact .pure _
    · exact .map (.act trivial)

theorem asked_readFile : AskedCached P OnContents (readFile task n fd requested len buf) s := by
  refine .getBind (.bind (asked_readCached hP) fun cached s₁ => ?_)
  cases cached with
  | some bytes => exact .map trivial
  | none =>
    refine .bind (asked_lift (asked_vfsReadCall hP)) fun reply s₂ => ?_
    split
    · exact .pure _
    split
    · exact .pure _
    split
    · exact .bind (.act trivial) fun _ _ => .map trivial
    · exact .map trivial

end Reading

theorem asked_read {len buf} (hP : ∀ message : VfsMessage, message.type = .readFileBuffer →
      message.word0 = (s.fd task n).handle → P message) : AskedCached P OnContents (read task n len buf) s := by
  refine .getBind ?_
  dsimp only
  split
  · exact .pure _
  split
  · exact .pure _
  split
  · exact .pure _
  split
  · exact .map (asked_lift (.act trivial))
  refine .guard ?_
  split
  · split
    · exact .pure _
    · exact asked_readFile hP
  · exact asked_readFile hP

theorem asked_mmapCached {fd offset len} : AskedCached P OnContents (mmapCached fd offset len) s := by
  unfold mmapCached
  split
  · exact .act trivial
  · exact .pure _

theorem asked_mmapRead {offset len buf} (hP : ∀ message : VfsMessage, message.type = .mmapPageBuffer →
      message.word0 = (s.fd task n).handle → P message) :
    AskedCached P OnContents (mmapRead task n offset len buf) s := by
  refine .getBind ?_
  dsimp only
  split
  · exact .pure _
  split
  · exact .pure _
  split
  · exact .pure _
  split
  · exact .map trivial
  refine .bind trivial fun _ s₁ => .bind asked_mmapCached fun cached s₂ => ?_
  split
  · exact .pure _
  refine .bind (asked_lift (asked_vfsReadCall hP)) fun reply s₃ => ?_
  split
  · exact .pure _
  split
  · exact .pure _
  refine .bind trivial fun _ s₄ => ?_
  refine .guard (.guard (.guard ?_))
  split
  · exact .map (.act trivial)
  · exact .pure _

section
variable (hP : ∀ message : VfsMessage, message.type = .writeFileBuffer → P message)
include hP

theorem asked_writeLoop {offset len buf done} :
    Asked P (writeLoop task handle offset len buf fuel done) s := by
  induction fuel generalizing done s with
  | zero => exact .pure _
  | succ fuel ih =>
    refine .when ?_
    refine .bind (.act trivial) fun created s₁ => ?_
    refine .guard (.guard ?_)
    refine .getBind (.bind (.act (hP _ rfl)) fun reply s₂ => ?_)
    split
    · exact .pure _
    split
    · exact .pure _
    split
    · exact .pure _
    · exact ih

theorem asked_write {len buf} :
    Asked P (write task n len buf) s := by
  refine .getBind ?_
  dsimp only
  split
  · exact .pure _
  split
  · exact .pure _
  split
  · exact .act trivial
  refine .when ?_
  refine .bind (asked_writeLoop hP) fun done s₁ => ?_
  split
  · exact .pure _
  refine .bind trivial fun _ s₂ => ?_
  split
  · split
    · exact .bind (.act trivial) fun _ _ => .map (.act trivial)
    · exact .map (.act trivial)
  · exact .pure _

end

/-! ## The caches that a call uses -/

/-- What is done with the caches for metadata. -/
def OnStats : CachedAction → Prop
  | .statGet .. | .statPut .. => True
  | _ => False

/-- What is done with the cache for directories. -/
def OnDirs : CachedAction → Prop
  | .dirLookup _ | .dirClaim | .dirStore .. => True
  | _ => False

theorem asked_liftTrue {m : LinuxM β} : AskedCached (fun _ => True) C (liftM m) s :=
  asked_lift (asked_true m s)

theorem asked_sendfile {outFd inFd len offset buf} :
    AskedCached (fun _ => True) OnContents (sendfile task outFd inFd len offset buf) s := by
  refine .getBind (.guard (.guard ?_))
  refine .bind trivial fun _ s₁ => .bind (asked_read fun _ _ _ => trivial) fun result s₂ => ?_
  exact .getBind (.setBind trivial (.guard (.map asked_liftTrue)))

theorem asked_statAt {nofollow : U64} :
    AskedCached (fun _ => True) OnStats (statAt task dirfd path base nofollow) s := by
  refine .getBind (.bind (.act trivial) fun cached s₁ => ?_)
  cases cached with
  | some cached => exact .pure _
  | none =>
    refine .bind asked_liftTrue fun found s₂ => ?_
    exact .map (.act trivial)

theorem asked_newfstatat :
    AskedCached (fun _ => True) OnStats (newfstatat task dirfd arg flags) s := by
  refine .guard ?_
  split
  · refine .getBind ?_
    dsimp only
    split
    · exact .pure _
    · exact asked_liftTrue
  refine .bind asked_liftTrue fun found s₁ => ?_
  cases found with
  | error e => exact .pure _
  | ok found => exact asked_statAt

theorem asked_dirCacheFill :
    AskedCached (fun _ => True) OnDirs (dirCacheFill handle path) s := by
  refine .bind (.act trivial) fun found s₁ => ?_
  cases found with
  | some entries => exact .pure _
  | none =>
    refine .guard ?_
    refine .bind asked_liftTrue fun ok s₂ => ?_
    refine .when ?_
    refine .bind (.act trivial) fun slot s₃ => .bind asked_liftTrue fun names s₄ => ?_
    split
    · exact .map (.act trivial)
    · exact .pure _

theorem asked_getdentsNext {fd offset} :
    AskedCached (fun _ => True) OnDirs (getdentsNext fd offset) s := by
  refine .guard (.guard ?_)
  refine .bind asked_dirCacheFill fun filled s₁ => ?_
  split
  · refine .bind asked_liftTrue fun entry s₂ => ?_
    cases entry <;> exact .pure _
  · split <;> exact .pure _
  · exact .pure _

theorem asked_getdentsLoop {outLen written} :
    AskedCached (fun _ => True) OnDirs (getdentsLoop task n outLen fuel written) s := by
  induction fuel generalizing written s with
  | zero => exact .pure _
  | succ fuel ih =>
    refine .guard ?_
    refine .getBind (.bind asked_getdentsNext fun entry s₁ => ?_)
    split
    · exact .pure _
    · exact .pure _
    · split
      · exact .pure _
      refine .guard ?_
      refine .bind trivial fun _ s₂ => .bind ih fun rest s₃ => ?_
      cases rest <;> exact .pure _

theorem asked_getdents64 {n len : U64} {buf : Bool} :
    AskedCached (fun _ => True) OnDirs (getdents64 task n len buf) s := by
  refine .getBind (.bind asked_liftTrue fun created s₁ => ?_)
  refine .guard (.guard (.guard (.guard ?_)))
  refine .bind asked_liftTrue fun ok s₂ => ?_
  split
  · refine .bind asked_getdentsLoop fun entries s₃ => ?_
    cases entries <;> exact .pure _
  · exact .pure _

theorem asked_serve {c} (hC : ∀ a, OnContents a ∨ OnStats a ∨ OnDirs a → C a)
    (haccess : ∀ dirfd path mode flags, c ≠ .faccessat dirfd path mode flags) :
    AskedCached (fun _ => True) C (serve task c) s := by
  have hmono : ∀ {K : CachedAction → Prop} {m : CachedM LinuxResult} {s : LinuxServer},
      (∀ a, K a → C a) → AskedCached (fun _ => True) K m s → AskedCached (fun _ => True) C m s := by
    intro K m s hK hm
    refine Only.monoAction hm fun a ha => ?_
    cases a with
    | base a => exact ha
    | _ => exact hK _ ha
  refine .getBind (.guard ?_)
  split
  · exact asked_liftTrue
  rename_i hplain
  cases c with
  | read n len buf => exact hmono (fun a ha => hC a (.inl ha)) (asked_read fun _ _ _ => trivial)
  | mmap n offset len buf => exact hmono (fun a ha => hC a (.inl ha)) (asked_mmapRead fun _ _ _ => trivial)
  | sendfile outFd inFd len offset buf => exact hmono (fun a ha => hC a (.inl ha)) asked_sendfile
  | faccessat dirfd path mode flags => exact absurd rfl (haccess dirfd path mode flags)
  | newfstatat dirfd path flags =>
    exact hmono (fun a ha => hC a (.inr (.inl ha))) (.map asked_newfstatat)
  | getdents64 n len buf => exact hmono (fun a ha => hC a (.inr (.inr ha))) asked_getdents64
  | _ => cases hplain

end Bunix.User.Linux
