import Bunix.Lib.Interp
import Bunix.User.VfsServer

/-! # What the VFS asks of the file servers

Every handler of the VFS makes requests of a few forms only. A property of requests that has been
shown of these holds of all that the server sends in a round.
-/
namespace Bunix.User

open Bunix.Lib Prog List

variable {s' s'' : VfsServer} {service offset len : U64} {request : FsRequest}
  {O : VfsAction → Prop} {pending resolved : Path} {followFinal : Bool} {linksLeft : Nat}
  {handle : Path → VfsM VfsReply}

def Asks (P : FsRequest → Prop) : VfsAction → Prop
  | .call _ request => P request
  | _ => True

variable {env : (a : VfsAction) → a.Result → Prop} {P : FsRequest → Prop} {s : VfsServer}
  {message : VfsMessage} {mount : VfsMount} {path : Path} {task : U64} {β γ : Type}

/-- Neither mounts nor pins are touched. -/
structure Kept (s s' : VfsServer) : Prop where
  mounts : s'.mounts = s.mounts
  routePins : s'.routePins = s.routePins

instance : IsPreorder VfsServer Kept where
  refl := fun _ => ⟨rfl, rfl⟩
  trans := fun _ _ _ h h' => ⟨h'.mounts.trans h.mounts, h'.routePins.trans h.routePins⟩

/-- All requests that a handler sends from the state `s` on meet `P`, and the mounts stay. -/
abbrev AsksOnly (env : (a : VfsAction) → a.Result → Prop) (P : FsRequest → Prop) (m : VfsM β)
    (s : VfsServer) : Prop :=
  Keeps env (Asks P) Kept m s

/-- The VFS closes a file again that it cannot record: this request meets `P` as well, or `env` has
every file recorded. -/
def AllowsClose (env : (a : VfsAction) → a.Result → Prop) (P : FsRequest → Prop) : Prop :=
  ∀ {service request reply}, request.type = .openBuffer →
    env (.call service request) (some reply) → reply.status = 0 →
    P { type := .close, word0 := reply.word1 } ∨ reply.word1 ≠ 0 ∧ ∀ ok, env .allocOpen ok → ok = true

/-- The requests that follow links for a task. -/
def AllowsLinks (P : FsRequest → Prop) (task : U64) : Prop :=
  ∀ type path flags room, type = .statPathMetaBuffer ∨ type = .readlinkBuffer →
    P (pathRequest type path task flags room)

theorem only_allocOpen :
    Only env O (allocOpen s) R ↔ O .allocOpen ∧ ∀ ok, env .allocOpen ok → R (ok, s) := Iff.rfl

/-! ## Forwarding -/

theorem asks_forwardMountPath (hclose : AllowsClose env P) {owner}
    (hP : mount.service ≠ 0 → P request) :
    AsksOnly env P (forwardMountPath mount owner request path) s := by
  unfold forwardMountPath
  split
  · exact .pure _
  rename_i hservice
  refine .actBind (hP hservice) fun reply hreply => ?_
  cases reply with
  | none => exact .pure _
  | some reply =>
    dsimp only
    split
    swap
    · exact .pure _
    rename_i hopen
    rcases hclose hopen.1 hreply hopen.2 with hclose | ⟨hhandle, halloc⟩
    · refine Keeps.bind ?_ fun opened s₁ => ?_
      · refine .guard ?_
        exact .bind (.act trivial) fun _ _ => .when (.getBind (.setBind ⟨rfl, rfl⟩ (.pure _)))
      · cases opened with
        | none => exact .map (.act hclose)
        | some handle => exact .pure _
    · unfold Keeps openRemoteFile
      rw [only_bindT, if_neg (not_or.mpr ⟨hservice, hhandle⟩), only_bindT, only_allocOpen]
      refine ⟨trivial, fun ok hok => ?_⟩
      obtain rfl := halloc ok hok
      exact ⟨rfl, rfl⟩

theorem asks_copyAnswer {room reply} :
    AsksOnly env P (copyAnswer message room offset len reply) s := by
  refine .guard (.guard ?_)
  refine .bind (.act trivial) fun ok s' => ?_
  split <;> exact .pure _

section
variable (hclose : AllowsClose env P)
include hclose

theorem asks_forwardMountBufferPath (hP : mount.service ≠ 0 → P (bufferPathRequest message path)) :
    AsksOnly env P (forwardMountBufferPath mount message path) s := by
  refine .bind (.act trivial) fun created s₁ => ?_
  refine .guard ?_
  refine .bind (asks_forwardMountPath hclose hP) fun result s₂ => ?_
  dsimp only
  split
  · exact asks_copyAnswer
  · exact .pure _

/-! ## Symbolic links -/

theorem asks_vfsLstatPath (hP : AllowsLinks P task) :
    AsksOnly env P (vfsLstatPath path task) s := by
  refine .getBind ?_
  split
  · exact .pure _
  refine .bind (.act trivial) fun created s₁ => ?_
  split
  · exact .map (asks_forwardMountPath hclose fun _ => hP _ _ _ _ (.inl rfl))
  · exact .pure _

theorem asks_vfsReadlinkTarget (hP : AllowsLinks P task) :
    AsksOnly env P (vfsReadlinkTarget path task) s := by
  refine .getBind ?_
  split
  · exact .pure _
  refine .bind (.act trivial) fun created s₁ => ?_
  refine .when ?_
  refine .bind (asks_forwardMountPath hclose fun _ => hP _ _ _ _ (.inr rfl)) fun result s₂ => ?_
  refine .guard (.guard ?_)
  split <;> exact .pure _

theorem asks_resolvePrefixes (hP : AllowsLinks P task) {stops} :
    AsksOnly env P (resolvePrefixes pending task followFinal linksLeft stops) s := by
  induction stops generalizing s with
  | nil => exact .pure _
  | cons stop rest ih =>
    refine .guard ?_
    refine .bind (asks_vfsLstatPath hclose hP) fun found s₁ => ?_
    split
    · exact .pure _
    split
    swap
    · split
      · exact .pure _
      · exact ih
    refine .guard ?_
    refine .bind (asks_vfsReadlinkTarget hclose hP) fun target s₂ => ?_
    split
    · exact .pure _
    split <;> exact .pure _

end

theorem asks_resolvedCacheInsert :
    AsksOnly env P (resolvedCacheInsert task path resolved) s := by
  refine .getBind ?_
  split
  · exact .pure _
  split
  · exact .pure _
  exact .actBind trivial fun (ok : Bool) _ => .when ⟨rfl, rfl⟩

theorem asks_vfsResolveFinish :
    AsksOnly env P (vfsResolveFinish path task followFinal resolved) s := by
  unfold vfsResolveFinish
  split
  · exact .map asks_resolvedCacheInsert
  · exact .pure _

section
variable (hclose : AllowsClose env P)
include hclose

theorem asks_resolveRound (hP : AllowsLinks P task) {again}
    (hagain : ∀ pending s, AsksOnly env P (again pending) s) :
    AsksOnly env P (resolveRound path task followFinal linksLeft pending again) s := by
  unfold resolveRound
  split
  · exact asks_vfsResolveFinish
  refine .bind (asks_resolvePrefixes hclose hP) fun result s₁ => ?_
  cases result with
  | finish => exact asks_vfsResolveFinish
  | final | fail error => exact .pure _
  | restart pending => exact hagain pending s₁

theorem asks_resolveLinks (hP : AllowsLinks P task) :
    AsksOnly env P (resolveLinks path task followFinal linksLeft pending) s := by
  induction linksLeft generalizing pending s with
  | zero => exact asks_resolveRound hclose hP fun _ _ => .pure _
  | succ linksLeft ih => exact asks_resolveRound hclose hP fun _ _ => ih

theorem asks_vfsResolveSymlinks (hP : AllowsLinks P task) :
    AsksOnly env P (vfsResolveSymlinks path task followFinal) s := by
  unfold vfsResolveSymlinks
  split
  · refine .bind ⟨rfl, rfl⟩ fun found s₁ => ?_
    cases found with
    | none => exact asks_resolveLinks hclose hP
    | some resolved => exact .pure _
  · exact asks_resolveLinks hclose hP

/-! ## Requests -/

theorem asks_forwardResolved (hlinks : AllowsLinks P task)
    (hP : ∀ resolved, P (bufferPathRequest message resolved)) :
    AsksOnly env P (forwardResolved message path task followFinal) s := by
  refine .bind (asks_vfsResolveSymlinks hclose hlinks) fun resolved s₁ => ?_
  cases resolved with
  | error error => exact .pure _
  | ok resolved =>
    refine .getBind ?_
    split
    · exact .pure _
    · exact asks_forwardMountBufferPath hclose fun _ => hP resolved

end

/-- The message with the subject that the server finds for it. -/
def withSubject (s : VfsServer) (message : VfsMessage) : VfsMessage :=
  messageSetSubject message (s.messageSubject message)

/-- The requests that a round can make meet `P`. -/
structure MayAsk (env : (a : VfsAction) → a.Result → Prop) (P : FsRequest → Prop) (s : VfsServer)
    (message : VfsMessage) : Prop where
  close : AllowsClose env P
  links : AllowsLinks P (s.messageSubject message)
  path : ∀ path, P (bufferPathRequest (withSubject s message) path)
  /-- A mount that resolves its own paths gets the word of the client. -/
  ownPaths : ∀ {path mount}, message.type = .openBuffer ∨ message.type = .statPathMetaBuffer →
    s.requestPath message = .ok path → s.mountForPath path = some mount →
    mount.fstype = serviceProcfs → mount.service ≠ 0 → P (bufferPathRequest message path)
  symlink : ∀ request : FsRequest, request.type = message.type →
    request.word3 = low32 (withSubject s message).word3 → P request
  twoPaths : ∀ request : FsRequest, request.type = message.type →
    request.word3 = (withSubject s message).word3 → P request
  readdir : ∀ {file}, s.openFromMessage message = some file → message.type = .readdirBuffer →
    message.buffer.isSome = true → message.send = true → file.service ≠ 0 → file.remoteHandle ≠ 0 →
    P (readdirRequest (withSubject s message) file.remoteHandle)
  handle : ∀ {file}, s.openFromMessage message = some file → message.type ≠ .readdirBuffer →
    P (handleRequest (withSubject s message) file.remoteHandle)

section
variable (h : MayAsk env P s message)
include h

theorem asks_accessOrReadlinkPath :
    AsksOnly env P (accessOrReadlinkPath message path followFinal) s := by
  exact .getBind (asks_forwardResolved h.close h.links h.path)

theorem asks_openOrStatPath (htype : message.type = .openBuffer ∨ message.type = .statPathMetaBuffer)
    (hpath : s.requestPath message = .ok path) :
    AsksOnly env P (openOrStatPath message path followFinal) s := by
  refine .getBind ?_
  split
  · rename_i mount hmount
    obtain ⟨hmount, hproc⟩ := Option.filter_eq_some_iff.mp hmount
    exact asks_forwardMountBufferPath h.close (h.ownPaths htype hpath hmount (beq_iff_eq.mp hproc))
  · exact asks_forwardResolved h.close h.links h.path

theorem asks_vfsMutatePath :
    AsksOnly env P (vfsMutatePath message path) s := by
  refine .getBind (.bind ⟨rfl, rfl⟩ fun _ s₁ => ?_)
  split
  · exact .pure _
  · exact asks_forwardMountBufferPath h.close fun _ => h.path path

theorem asks_vfsSymlinkPath {target} :
    AsksOnly env P (vfsSymlinkPath message target path) s := by
  refine .getBind (.bind ⟨rfl, rfl⟩ fun _ s₁ => ?_)
  split
  · exact .pure _
  refine .bind (.act trivial) fun created s₁ => ?_
  split
  · exact .map (asks_forwardMountPath h.close fun _ => h.symlink _ rfl rfl)
  · exact .pure _

theorem asks_vfsTwoPaths {oldPath newPath} :
    AsksOnly env P (vfsTwoPaths message oldPath newPath) s := by
  refine .getBind (.bind ⟨rfl, rfl⟩ fun _ s₁ => ?_)
  split
  · split
    · exact .pure _
    · refine .bind (.act trivial) fun created s₁ => ?_
      split
      · exact .map (asks_forwardMountPath h.close fun _ => h.twoPaths _ rfl rfl)
      · exact .pure _
  · exact .pure _
  · exact .pure _

theorem asks_forwardRemoteHandle {file} (hfile : s.openFromMessage message = some file) :
    AsksOnly env P (forwardRemoteHandle file message) s := by
  refine .getBind ?_
  dsimp only
  split
  · exact .pure _
  rename_i hopen
  obtain ⟨hservice, hhandle⟩ := not_or.mp hopen
  split
  · rename_i htype
    refine .bind (.act trivial) fun created s₁ => ?_
    split
    · exact .pure _
    rename_i hcap
    simp only [not_or, Bool.not_eq_false, Option.isNone_iff_eq_none, ← Option.isSome_iff_ne_none] at hcap
    have hP := h.readdir hfile htype hcap.1 hcap.2.1 hservice hhandle
    refine .bind (.act hP) fun reply s₂ => ?_
    split
    · exact .pure _
    split
    · exact .map asks_copyAnswer
    · exact .pure _
  · rename_i htype
    refine .bind (.act (h.handle hfile htype)) fun reply s₂ => ?_
    cases reply <;> exact .pure _

end

theorem get_bind_run {β} {f : VfsServer → VfsM β} : (get >>= f) s = f s s := rfl

theorem asks_withPath (h : ∀ path, s.requestPath message = .ok path → AsksOnly env P (handle path) s) :
    AsksOnly env P (withPath message handle) s := by
  refine .getBind ?_
  split
  · exact .pure _
  · rename_i path hpath
    exact h path hpath

section
variable (h : MayAsk env P s message)
include h

theorem asks_withHandle {status} :
    AsksOnly env P (withHandle message status) s := by
  refine .getBind ?_
  split
  · exact .pure _
  · rename_i file hfile
    exact .map (asks_forwardRemoteHandle h hfile)

theorem asks_handleClose : AsksOnly env P (handleClose message) s := by
  refine .getBind ?_
  split
  · exact .pure _
  rename_i file hfile
  refine .bind (asks_forwardRemoteHandle h hfile) fun result s₁ => ?_
  dsimp only
  split
  · exact ⟨rfl, rfl⟩
  · exact .pure _

theorem asks_handleSymlink :
    AsksOnly env P (handleSymlink message) s := by
  refine .getBind ?_
  split
  · split
    · exact .pure _
    split
    · exact .pure _
    · exact asks_vfsSymlinkPath h
  · exact .pure _

theorem asks_handleTwoPaths :
    AsksOnly env P (handleTwoPaths message) s := by
  refine .getBind ?_
  dsimp only
  split
  · split
    · exact .pure _
    split
    · exact asks_vfsTwoPaths h
    · exact .pure _
    · exact .pure _
  · exact .pure _

end

/-! ## Administration -/

theorem betterMount_cases (best : Option VfsMount) :
    VfsServer.betterMount path best mount = some mount ∧ vfsPathIsAtOrUnder path mount.path = true ∧
        (∀ m ∈ best, m.path.length ≤ mount.path.length) ∨ VfsServer.betterMount path best mount = best ∧
        (vfsPathIsAtOrUnder path mount.path = true → ∃ m ∈ best, mount.path.length < m.path.length) := by
  unfold VfsServer.betterMount
  cases best <;> grind

/-- The mount for a path is a longest one that the path is at or under. -/
structure Routed (mounts : List VfsMount) (path : Path) (mount : VfsMount) : Prop where
  mem : mount ∈ mounts
  under : vfsPathIsAtOrUnder path mount.path = true
  longest : ∀ m ∈ mounts, vfsPathIsAtOrUnder path m.path = true → m.path.length ≤ mount.path.length

theorem routed_mountForPath (s : VfsServer) (path : Path) : match s.mountForPath path with
    | some mount => Routed s.mounts path mount
    | none => ∀ m ∈ s.mounts, vfsPathIsAtOrUnder path m.path = false := by
  unfold VfsServer.mountForPath
  induction s.mounts using reverseRecOn with
  | nil => simp
  | append_singleton mounts mount ih =>
    rw [foldl_append, foldl_cons, foldl_nil]
    generalize mounts.foldl (VfsServer.betterMount path) none = best at ih
    have hlast : ∀ m ∈ mounts ++ [mount], m ∈ mounts ∨ m = mount := by simp
    rcases betterMount_cases best with ⟨he, hunder, hlen⟩ | ⟨he, hlen⟩
    · rw [he]
      refine ⟨by simp, hunder, fun m hm hu => ?_⟩
      rcases hlast m hm with hm | rfl
      · cases best with
        | none => exact absurd hu (by simp [ih m hm])
        | some best => exact (ih.longest m hm hu).trans (hlen best rfl)
      · exact le_rfl
    · rw [he]
      cases best with
      | none =>
        intro m hm
        rcases hlast m hm with hm | rfl
        · exact ih m hm
        · exact Bool.eq_false_iff.mpr fun hu => by simpa using hlen hu
      | some best =>
        refine ⟨mem_append_left _ ih.mem, ih.under, fun m hm hu => ?_⟩
        rcases hlast m hm with hm | rfl
        · exact ih.longest m hm hu
        · obtain ⟨best', hbest, hlt⟩ := hlen hu
          cases hbest
          exact hlt.le

theorem mem_of_mountForPath (h : s.mountForPath path = some mount) : mount ∈ s.mounts := by
  have hrouted := routed_mountForPath s path
  rw [h] at hrouted
  exact hrouted.mem

/-- All that a request can do to mounts and pins. -/
inductive MountStep (message : VfsMessage) (s s' : VfsServer) : Prop
  | kept (h : Kept s s')
  | redirect {mount : VfsMount} {service fstype : U64} (hmem : mount ∈ s.mounts) (hpins : mount.pins = 0)
      (hmounts : s'.mounts = s.mounts.map fun m : VfsMount =>
        if m.path = mount.path then { m with service, fstype } else m)
      (hrest : s'.routePins = s.routePins)
  | add {path : Path} {service fstype : U64} (hpath : path.head? = some '/')
      (hnew : ∀ mount ∈ s.mounts, mount.path ≠ path)
      (hmounts : s'.mounts =
        ⟨path, (freshId (s.mounts.map VfsMount.id) (s.mounts.length + 1) s.nextMountId).1, service, fstype, 0⟩ ::
          s.mounts)
      (hrest : s'.routePins = s.routePins)
  | remove {mount : VfsMount} (hmem : mount ∈ s.mounts) (hpins : mount.pins = 0)
      (hopens : ∀ e ∈ s.openFiles, vfsPathIsAtOrUnder e.2.path mount.path = false)
      (hmounts : s'.mounts = s.mounts.filter fun m => m.path != mount.path)
      (hrest : s'.routePins = s.routePins)
  | pin {mount : VfsMount} (hmem : mount ∈ s.mounts)
      (hmounts : s'.mounts = s.mounts.map fun m : VfsMount =>
        if m.id = mount.id then { m with pins := m.pins + 1 } else m)
      (hpins : s'.routePins =
        ((freshId (s.routePins.map Prod.fst) (s.routePins.length + 1) s.nextRoutePinId).1,
          ⟨message.sender, mount.id⟩) :: s.routePins)
  | unpin {mount : VfsMount} {pin : VfsRoutePin} (hpin : s.routePins.lookup message.word0 = some pin)
      (howner : pin.owner = message.sender) (hmem : mount ∈ s.mounts) (hid : mount.id = pin.mountId)
      (hmounts : s'.mounts = s.mounts.map fun m : VfsMount =>
        if m.id = mount.id then { m with pins := m.pins - 1 } else m)
      (hpins : s'.routePins = s.routePins.filter fun e => e.1 != message.word0)

/-- A handler asks of the file servers what meets `P`, and does to mounts and pins what the request
may do. -/
abbrev Administers (env : (a : VfsAction) → a.Result → Prop) (P : FsRequest → Prop) (message : VfsMessage)
    (m : VfsM β) (s : VfsServer) : Prop :=
  Keeps env (Asks P) (MountStep message) m s

theorem MountStep.thenKept (h : MountStep message s s') (h' : Kept s' s'') :
    MountStep message s s'' := by
  obtain ⟨hm, hp⟩ := h'
  cases h with
  | kept h => exact .kept (IsTrans.trans _ _ _ h ⟨hm, hp⟩)
  | redirect hmem hpins hmounts hrest => exact .redirect hmem hpins (hm.trans hmounts) (hp.trans hrest)
  | add hpath hnew hmounts hrest => exact .add hpath hnew (hm.trans hmounts) (hp.trans hrest)
  | remove hmem hpins hopens hmounts hrest =>
    exact .remove hmem hpins hopens (hm.trans hmounts) (hp.trans hrest)
  | pin hmem hmounts hpins => exact .pin hmem (hm.trans hmounts) (hp.trans hpins)
  | unpin hpin howner hmem hid hmounts hpins =>
    exact .unpin hpin howner hmem hid (hm.trans hmounts) (hp.trans hpins)

theorem administers_of_asksOnly (h : AsksOnly env P m s) : Administers env P message m s :=
  Only.mono h fun _ => .kept

instance : Std.Refl (MountStep message) := ⟨fun _ => .kept ⟨rfl, rfl⟩⟩

theorem administers_bind (hm : Administers env P message m s)
    (hf : ∀ b s', AsksOnly env P (f b) s') : Administers env P message (m >>= f) s :=
  only_bindT.mpr (Only.mono hm fun bs h => Only.mono (hf bs.1 bs.2) fun _ => h.thenKept)

theorem asks_withAdminPath (h : ∀ path, Administers env P message (handle path) s) :
    Administers env P message (withAdminPath message handle) s := by
  refine .getBind (.guard ?_)
  split
  · exact .pure _
  · exact h _

theorem asks_notifyProcfs {mounted} : AsksOnly env P (notifyProcfs path mounted) s := by
  refine .getBind ?_
  split
  · exact .pure _
  split
  · exact .pure _
  · exact .act trivial

theorem asks_vfsReplyMountRoute {pin} :
    Administers env P message (vfsReplyMountRoute message path pin) s := by
  refine .getBind ?_
  cases hmount : s.mountForPath path with
  | none => exact .pure _
  | some mount =>
    refine .guard (.guard (.guard (.guard ?_)))
    exact .actBind trivial fun (ok : Bool) _ => .when (MountStep.pin (mem_of_mountForPath hmount) rfl rfl)

theorem asks_vfsUnpinMountRoute :
    Administers env P message (vfsUnpinMountRoute message) s := by
  refine .getBind ?_
  cases hpin : s.routePins.lookup message.word0 with
  | none => exact .pure _
  | some pin =>
    cases hmount : s.mounts.find? fun mount => mount.id == pin.mountId with
    | none => simp only [hmount]; exact .pure _
    | some mount =>
      simp only [hmount]
      split
      · exact .pure _
      rename_i hguard
      have howner : pin.owner = message.sender := by_contra fun h => hguard (.inl h)
      exact MountStep.unpin hpin howner (mem_of_find?_eq_some hmount)
        (by simpa using find?_some hmount) rfl rfl

theorem asks_mountTranslator {fstype} :
    Administers env P message (mountTranslator path service fstype) s := by
  unfold mountTranslator
  split
  · exact .pure _
  rename_i hpath
  have hpath : path.head? = some '/' := by_contra fun h => hpath (.inl h)
  unfold Administers Keeps resolvedCacheClear
  rw [only_bindT, only_modify, only_bindT, only_get]
  cases hmount : s.mounts.find? fun mount => mount.path == path with
  | some mount =>
    dsimp only
    split
    · exact MountStep.kept ⟨rfl, rfl⟩
    rename_i hpins
    have hp : mount.path = path := by simpa using find?_some hmount
    subst hp
    exact MountStep.redirect (mem_of_find?_eq_some hmount) (not_not.mp hpins) rfl rfl
  | none =>
    refine only_bindT.mpr ⟨trivial, fun ok _ => ?_⟩
    cases ok with
    | true =>
      refine MountStep.add hpath (fun mount hmem he => ?_) rfl rfl
      exact absurd he (by simpa using find?_eq_none.mp hmount mount hmem)
    | false => exact MountStep.kept ⟨rfl, rfl⟩

theorem asks_handleMount : Administers env P message (handleMount message) s := by
  refine .getBind (.guard (.actBind trivial fun service _ => ?_))
  split
  · exact .pure _
  split
  · exact .pure _
  refine administers_bind asks_mountTranslator fun status s₁ => ?_
  split
  · exact .map asks_notifyProcfs
  · exact .pure _

theorem asks_handleUnmount : Administers env P message (handleUnmount path) s := by
  refine administers_bind ?_ fun status s₁ => ?_
  · refine .getBind (.guard ?_)
    cases hmount : s.mounts.find? fun mount => mount.path == path with
    | none => exact .pure _
    | some mount =>
      dsimp only
      split
      · exact .pure _
      rename_i hbusy
      have hp : mount.path = path := by simpa using find?_some hmount
      subst hp
      refine MountStep.remove (mem_of_find?_eq_some hmount)
        (by_contra fun h => hbusy (.inr h)) (fun e he => ?_) rfl rfl
      rw [← Bool.not_eq_true]
      exact fun hunder => hbusy (.inl (any_eq_true.mpr ⟨e, he, hunder⟩))
  · split
    · exact .map asks_notifyProcfs
    · exact .pure _

theorem asks_vfsServe (h : MayAsk env P s message) : Administers env P message (vfsServe message) s := by
  have hmutate : Administers env P message (withPath message (vfsMutatePath message)) s :=
    administers_of_asksOnly (asks_withPath fun _ _ => asks_vfsMutatePath h)
  have hhandle : ∀ status, Administers env P message (withHandle message status) s :=
    fun status => administers_of_asksOnly (asks_withHandle h)
  have hown : ∀ followFinal, message.type = .openBuffer ∨ message.type = .statPathMetaBuffer →
      Administers env P message (withPath message fun path => openOrStatPath message path followFinal) s :=
    fun followFinal htype => administers_of_asksOnly (asks_withPath fun _ => asks_openOrStatPath h htype)
  unfold vfsServe
  cases htype : message.type with
  | openBuffer => exact hown true (.inl htype)
  | statPathMetaBuffer => exact hown _ (.inr htype)
  | accessBuffer | readlinkBuffer => exact administers_of_asksOnly (asks_withPath fun _ _ =>
    asks_accessOrReadlinkPath h)
  | createBuffer | chmodBuffer | chownBuffer | mkdirBuffer | rmdirBuffer | unlinkBuffer
    | utimensBuffer | mknodBuffer => exact hmutate
  | symlinkBuffer => exact administers_of_asksOnly (asks_handleSymlink h)
  | renameBuffer | linkBuffer => exact administers_of_asksOnly (asks_handleTwoPaths h)
  | chmod | chown | writeFileBuffer | statMeta | readFileBuffer | mmapPageBuffer | readdirBuffer =>
    exact hhandle _
  | truncate =>
    dsimp only
    split
    · exact hmutate
    · exact hhandle _
  | close => exact administers_of_asksOnly (asks_handleClose h)
  | grantAdminTask | grantSubjectTask => exact ⟨trivial, fun _ _ => MountStep.kept ⟨rfl, rfl⟩⟩
  | mountBuffer => exact asks_handleMount
  | resolveMountBuffer | pinRouteBuffer => exact asks_withAdminPath fun _ => asks_vfsReplyMountRoute
  | unpinRoute =>
    refine .getBind ?_
    split
    · exact .pure _
    · exact asks_vfsUnpinMountRoute
  | unmountBuffer => exact asks_withAdminPath fun _ => asks_handleUnmount
  | other code => exact .pure _

/-! ## Handing on a path -/

theorem vfsMutatePath_eq : vfsMutatePath message path s = (match s.mountForPath path with
    | none => (return .error VfsErr.access : VfsM VfsReply)
    | some mount => forwardMountBufferPath mount (messageSetSubject message (s.messageSubject message)) path)
      { s with resolvedPaths := [] } := rfl

theorem exec_forwardMountBufferPath {σ : Type} {h : (a : VfsAction) → σ → a.Result × σ} {τ τ₁ τ₂ : σ}
    {created : Bool} {reply : Option VfsReply} (hopen : message.type ≠ .openBuffer)
    (hutimens : message.type ≠ .utimensBuffer) (hcap : message.outCap = 0)
    (hcreate : h (.createBuffer (2 + stringLen path + 0 + 0)) τ = (created, τ₁))
    (hcall : h (.call mount.service (bufferPathRequest message path)) τ₁ = (reply, τ₂)) :
    exec h (forwardMountBufferPath mount message path s) τ =
      if created = false then ((.error VfsErr.fail, s), τ₁)
      else if mount.service = 0 then ((.error VfsErr.noent, s), τ₁)
      else ((reply.getD (.error VfsErr.fail), s), τ₂) := by
  have hbuffer : exec h (createBuffer (2 + stringLen path + 0 + 0) s) τ = ((created, s), τ₁) :=
    congrArg (fun r : Bool × σ => ((r.1, s), r.2)) hcreate
  have hasked : exec h (ipcCall mount.service (bufferPathRequest message path) s) τ₁ = ((reply, s), τ₂) :=
    congrArg (fun r : Option VfsReply × σ => ((r.1, s), r.2)) hcall
  have htype : (bufferPathRequest message path).type ≠ .openBuffer := hopen
  unfold forwardMountBufferPath forwardMountPath
  rw [if_neg hutimens, hcap, exec_bindT, hbuffer]
  simp only [hutimens, htype, false_and, false_or, if_false, ne_eq, not_true_eq_false, and_false]
  split
  · rfl
  rw [exec_bindT]
  split
  · rfl
  rw [exec_bindT, hasked]
  cases reply with
  | none | some reply => rfl

end Bunix.User
