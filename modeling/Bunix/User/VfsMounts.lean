import Bunix.Lib.AssocList
import Bunix.Lib.Transition
import Bunix.User.VfsRequests

/-! # The lifetime of mounts

Mounts, the pins that name them and the open files refer to each other by number and by path. Whatever
requests come, and whatever the file servers answer, the pins of a mount are counted right, and none of
the three refers to a mount that is gone.
-/
namespace Bunix.User

open Bunix.Lib Prog SlashPath List

variable {message : VfsMessage} {s s' : VfsServer} {mount m m' : VfsMount} {path dir : Path}
  {used : List U64}

/-! ## Numbers in use -/

theorem freshId_used {fuel next}
    (h : (freshId used fuel next).1 ∈ 0 :: used) (j : Nat) (hj : j ≤ fuel) :
    next + BitVec.ofNat 64 j ∈ 0 :: used := by
  induction fuel generalizing next j with
  | zero =>
    obtain rfl : j = 0 := by omega
    have h : next ∈ 0 :: used := h
    simpa using h
  | succ fuel ih =>
    change (if next = 0 ∨ next ∈ used then freshId used fuel (next + 1) else _).1 ∈ 0 :: used at h
    split at h
    · rename_i hused
      cases j with
      | zero => simpa using hused
      | succ j =>
        have := ih h j (by omega)
        rwa [BitVec.ofNat_add, BitVec.add_comm (BitVec.ofNat 64 j), ← BitVec.add_assoc]
    · rename_i hfree
      exact absurd (by simpa using h) hfree

theorem freshId_fresh {next fuel} (hfuel : fuel = used.length + 1)
    (h : used.length + 2 ≤ 2 ^ 64) : (freshId used fuel next).1 ∉ used := by
  intro hmem
  have htried := freshId_used (mem_cons_of_mem 0 hmem)
  have hnodup : ((range (used.length + 2)).map fun j => next + BitVec.ofNat 64 j).Nodup := by
    refine Nodup.map_on (fun i hi j hj he => ?_) nodup_range
    have hij := congrArg BitVec.toNat (BitVec.add_right_inj _ |>.mp he)
    rw [BitVec.toNat_ofNat, BitVec.toNat_ofNat] at hij
    rwa [Nat.mod_eq_of_lt (by grind), Nat.mod_eq_of_lt (by grind)] at hij
  have hsub : ((range (used.length + 2)).map fun j => next + BitVec.ofNat 64 j) ⊆ 0 :: used := by
    intro id hid
    obtain ⟨j, hj, rfl⟩ := mem_map.mp hid
    exact htried j (by grind)
  have := (hnodup.subperm hsub).length_le
  simp at this

/-! ## Routes -/

theorem vfsPathIsAtOrUnder_iff (hdir : dir.head? = some '/') :
    vfsPathIsAtOrUnder path dir = true ↔ path.head? = some '/' ∧ (dir = ['/'] ∨ AtOrUnder dir path) := by
  obtain ⟨d, rfl⟩ : ∃ d, dir = '/' :: d := head?_eq_some_iff.mp hdir
  unfold vfsPathIsAtOrUnder
  rw [if_neg (cons_ne_nil _ _)]
  by_cases hroot : '/' :: d = ['/']
  · simp [hroot]
  rw [if_neg hroot, Bool.and_eq_true, isPrefixOf_iff_prefix]
  constructor
  · rintro ⟨⟨rest, rfl⟩, hrest⟩
    refine ⟨rfl, .inr ?_⟩
    cases rest with
    | nil => exact .inl (append_nil _)
    | cons c rest =>
      obtain rfl : c = '/' := by simpa using hrest
      exact .inr ⟨rest, rfl⟩
  · rintro ⟨-, he | rfl | ⟨rest, rfl⟩⟩
    · exact absurd he hroot
    · simp
    · exact ⟨⟨_, rfl⟩, by rw [drop_left]; rfl⟩

/-- `path_is_at_or_under` compares name by name. -/
theorem vfsPathIsAtOrUnder_names (hdir : dir.head? = some '/') :
    vfsPathIsAtOrUnder path dir = true ↔ path.head? = some '/' ∧ names dir <+: names path := by
  rw [vfsPathIsAtOrUnder_iff hdir]
  exact and_congr_right fun hpath => (names_prefix_iff hdir hpath).symm

/-! ## The invariant -/

structure MountsOk (s : VfsServer) : Prop where
  rooted : ∀ m ∈ s.mounts, m.path.head? = some '/'
  paths : (s.mounts.map VfsMount.path).Nodup
  ids : (s.mounts.map VfsMount.id).Nodup
  pinIds : (s.routePins.map Prod.fst).Nodup
  /-- Pins are counted. -/
  pins : ∀ m ∈ s.mounts, m.pins = s.routePins.countP fun e => e.2.mountId == m.id
  /-- Every pin names a mount that is there. -/
  named : ∀ e ∈ s.routePins, ∃ m ∈ s.mounts, m.id = e.2.mountId

theorem MountsOk.eq_of_path (h : MountsOk s) (hm : m ∈ s.mounts) (hm' : m' ∈ s.mounts)
    (he : m.path = m'.path) : m = m' := inj_on_of_nodup_map h.paths hm hm' he

/-- The longest of the mounts that a path continues has most names. -/
theorem Routed.deepest (hok : MountsOk s) (h : Routed s.mounts path mount)
    (hm : m ∈ s.mounts) (hnames : names m.path <+: names path) (hne : m ≠ mount) :
    (names m.path).length < (names mount.path).length := by
  by_contra hle
  have hroot := hok.rooted mount h.mem
  have hroot' := hok.rooted m hm
  obtain ⟨hpath, hmount⟩ := (vfsPathIsAtOrUnder_names hroot).mp h.under
  have hlen := h.longest m hm ((vfsPathIsAtOrUnder_names hroot').mpr ⟨hpath, hnames⟩)
  have hbelow := prefix_of_prefix_length_le hmount hnames (Nat.le_of_not_lt hle)
  have hp : m.path = mount.path := by
    rcases (names_prefix_iff hroot hroot').mp hbelow with he | he | hu
    · obtain ⟨rest, hrest⟩ := head?_eq_some_iff.mp hroot'
      rw [he, hrest] at hlen
      obtain rfl : rest = [] := length_eq_zero_iff.mp (by simpa using hlen)
      rw [hrest, he]
    · exact he
    · exact absurd hu.length_lt (by omega)
  exact hne (hok.eq_of_path hm h.mem hp)

/-- **Routing.** A path goes to the mount that has most names among those whose names it continues. -/
theorem mountForPath_eq_some (hok : MountsOk s) :
    s.mountForPath path = some mount ↔
      mount ∈ s.mounts ∧ path.head? = some '/' ∧ names mount.path <+: names path ∧
        ∀ m ∈ s.mounts, names m.path <+: names path → m ≠ mount →
          (names m.path).length < (names mount.path).length := by
  have hrouted := routed_mountForPath s path
  cases hfound : s.mountForPath path with
  | none =>
    rw [hfound] at hrouted
    refine iff_of_false nofun fun ⟨hmem, hpath, hnames, _⟩ => ?_
    have hunder := (vfsPathIsAtOrUnder_names (hok.rooted mount hmem)).mpr ⟨hpath, hnames⟩
    rw [hrouted mount hmem] at hunder
    cases hunder
  | some found =>
    rw [hfound] at hrouted
    obtain ⟨hpath, hnames⟩ := (vfsPathIsAtOrUnder_names (hok.rooted found hrouted.mem)).mp hrouted.under
    constructor
    · intro he
      cases he
      exact ⟨hrouted.mem, hpath, hnames, fun _ => hrouted.deepest hok⟩
    · rintro ⟨hmem, -, hn, hdeepest⟩
      by_contra hne
      have hne : found ≠ mount := fun he => hne (he ▸ rfl)
      have hlt := hdeepest found hrouted.mem hnames hne
      have hlt' := hrouted.deepest hok hmem hn hne.symm
      omega

theorem MountsOk.map (h : MountsOk s) (hmounts : s'.mounts = s.mounts.map f)
    (hpath : ∀ m, (f m).path = m.path) (hid : ∀ m, (f m).id = m.id)
    (hpinIds : (s'.routePins.map Prod.fst).Nodup)
    (hpins : ∀ m ∈ s.mounts, (f m).pins = s'.routePins.countP fun e => e.2.mountId == m.id)
    (hnamed : ∀ e ∈ s'.routePins, ∃ m ∈ s.mounts, m.id = e.2.mountId) : MountsOk s' where
  rooted m hm := by
    rw [hmounts] at hm
    obtain ⟨m, hmem, rfl⟩ := mem_map.mp hm
    rw [hpath]
    exact h.rooted m hmem
  paths := by
    rw [hmounts, map_map, show VfsMount.path ∘ f = VfsMount.path from funext hpath]
    exact h.paths
  ids := by
    rw [hmounts, map_map, show VfsMount.id ∘ f = VfsMount.id from funext hid]
    exact h.ids
  pinIds := hpinIds
  pins m hm := by
    rw [hmounts] at hm
    obtain ⟨m, hmem, rfl⟩ := mem_map.mp hm
    rw [hpins m hmem, hid]
  named e he := by
    obtain ⟨m, hm, hme⟩ := hnamed e he
    exact ⟨f m, hmounts ▸ mem_map.mpr ⟨m, hm, rfl⟩, (hid m).trans hme⟩

/-- The tables fit into the memory. -/
def VfsServer.Fits (s : VfsServer) : Prop :=
  s.mounts.length + 2 ≤ 2 ^ 64 ∧ s.routePins.length + 2 ≤ 2 ^ 64

theorem MountsOk.step (h : MountsOk s) (hfits : s.Fits) (hstep : MountStep message s s') : MountsOk s' := by
  cases hstep with
  | kept hkept =>
    obtain ⟨hm, hp⟩ := hkept
    refine h.map (hm.trans (map_id _).symm) (fun _ => rfl) (fun _ => rfl) ?_ ?_ ?_
    · exact hp ▸ h.pinIds
    · exact hp ▸ h.pins
    · exact hp ▸ h.named
  | redirect hmem hpins hmounts hrest =>
    refine h.map hmounts (fun m => ?_) (fun m => ?_) (hrest ▸ h.pinIds) (fun m hm => ?_) (hrest ▸ h.named)
    · split <;> rfl
    · split <;> rfl
    · rw [hrest, ← h.pins m hm]
      split <;> rfl
  | @add path service fstype hpath hnew hmounts hrest =>
    have hfresh : (freshId (s.mounts.map VfsMount.id) (s.mounts.length + 1) s.nextMountId).1 ∉
        s.mounts.map VfsMount.id := freshId_fresh (by simp) (by simpa using hfits.1)
    refine ⟨?_, ?_, ?_, hrest ▸ h.pinIds, ?_, ?_⟩ <;> rw [hmounts]
    · exact forall_mem_cons.mpr ⟨hpath, h.rooted⟩
    · refine nodup_cons.mpr ⟨fun hmem => ?_, h.paths⟩
      obtain ⟨m, hm, he⟩ := mem_map.mp hmem
      exact hnew m hm he
    · exact nodup_cons.mpr ⟨hfresh, h.ids⟩
    · rw [hrest]
      refine forall_mem_cons.mpr ⟨?_, h.pins⟩
      refine (countP_eq_zero.mpr fun e he hid => ?_).symm
      obtain ⟨m, hm, hme⟩ := h.named e he
      exact hfresh (mem_map.mpr ⟨m, hm, hme.trans (eq_of_beq hid)⟩)
    · rw [hrest]
      intro e he
      obtain ⟨m, hm, hme⟩ := h.named e he
      exact ⟨m, mem_cons_of_mem _ hm, hme⟩
  | @remove mount hmem hpins hopens hmounts hrest =>
    have hsub : s'.mounts.Sublist s.mounts := hmounts ▸ filter_sublist
    refine ⟨fun m hm => h.rooted m (hsub.subset hm), h.paths.sublist (hsub.map _),
      h.ids.sublist (hsub.map _), hrest ▸ h.pinIds, fun m hm => hrest ▸ h.pins m (hsub.subset hm), ?_⟩
    rw [hrest]
    intro e he
    obtain ⟨m, hm, hme⟩ := h.named e he
    refine ⟨m, hmounts ▸ mem_filter.mpr ⟨hm, ?_⟩, hme⟩
    -- A mount that a pin names has pins.
    have hne : m.path ≠ mount.path := by
      intro hp
      obtain rfl := h.eq_of_path hm hmem hp
      rw [h.pins m hm, countP_eq_zero] at hpins
      exact hpins e he (by simp [hme])
    simpa using hne
  | @pin mount hmem hmounts hpins =>
    refine h.map hmounts (fun m => ?_) (fun m => ?_) ?_ (fun m hm => ?_) ?_
    · split <;> rfl
    · split <;> rfl
    · rw [hpins]
      exact nodup_cons.mpr ⟨freshId_fresh (by simp) (by simpa using hfits.2), h.pinIds⟩
    · rw [hpins, countP_cons, ← h.pins m hm]
      by_cases hid : m.id = mount.id
      · simp [hid]
      · simp [hid, Ne.symm hid]
    · rw [hpins]
      exact forall_mem_cons.mpr ⟨⟨mount, hmem, rfl⟩, h.named⟩
  | @unpin mount pin hpin howner hmem hid hmounts hpins =>
    have hcount := fun m : VfsMount =>
      AssocList.countP_without (fun e => e.2.mountId == m.id) h.pinIds hpin
    refine h.map hmounts (fun m => ?_) (fun m => ?_) ?_ (fun m hm => ?_) ?_
    · split <;> rfl
    · split <;> rfl
    · rw [hpins]
      exact AssocList.nodup_without h.pinIds
    · have hpinned := h.pins m hm
      rw [hcount m, ← hid] at hpinned
      unfold AssocList.without at hpinned
      rw [hpins]
      by_cases hm' : m.id = mount.id
      · simp only [hm', beq_self_eq_true, if_true] at hpinned ⊢
        omega
      · simp only [hm', Ne.symm hm', beq_iff_eq, if_false] at hpinned ⊢
        omega
    · rw [hpins]
      exact fun e he => h.named e (mem_of_mem_filter he)

/-! ## Runs -/

/-- A request is served, whatever the outside answers. -/
def VfsServer.Serves (s : VfsServer) (message : VfsMessage) (s' : VfsServer) : Prop :=
  ∃ reply, Returns (fun _ _ => True) (vfsServe message s) (reply, s')

theorem VfsServer.Serves.mountStep (h : s.Serves message s') : MountStep message s s' := by
  obtain ⟨reply, h⟩ := h
  have hany : MayAsk (fun _ _ => True) (fun _ => True) s message :=
    ⟨fun _ _ _ => .inl trivial, fun _ _ _ _ _ => trivial, fun _ => trivial, fun _ _ _ _ _ => trivial,
      fun _ _ _ => trivial, fun _ _ _ => trivial, fun _ _ _ _ _ _ => trivial, fun _ _ => trivial⟩
  exact (asks_vfsServe hany).returns h

/-- A mount stays where it is, and with its service if it has pins; or it goes, and then nothing holds
it. -/
theorem MountStep.stays (hok : MountsOk s) (h : MountStep message s s') (hmem : mount ∈ s.mounts) :
    (∃ m ∈ s'.mounts, m.id = mount.id ∧ m.path = mount.path ∧
      (mount.pins ≠ 0 → m.service = mount.service ∧ m.fstype = mount.fstype)) ∨
    mount.pins = 0 ∧ ∀ e ∈ s.openFiles, vfsPathIsAtOrUnder e.2.path mount.path = false := by
  have hself : mount ∈ s'.mounts → ∃ m ∈ s'.mounts, m.id = mount.id ∧ m.path = mount.path ∧
      (mount.pins ≠ 0 → m.service = mount.service ∧ m.fstype = mount.fstype) :=
    fun hm => ⟨mount, hm, rfl, rfl, fun _ => ⟨rfl, rfl⟩⟩
  cases h with
  | kept hkept => exact .inl (hself (hkept.mounts ▸ hmem))
  | @redirect other service fstype hother hpins hmounts hrest =>
    by_cases hp : mount.path = other.path
    · obtain rfl := hok.eq_of_path hmem hother hp
      exact .inl ⟨{ mount with service, fstype }, hmounts ▸ mem_map.mpr ⟨mount, hmem, if_pos rfl⟩,
        rfl, rfl, absurd hpins⟩
    · exact .inl (hself (hmounts ▸ mem_map.mpr ⟨mount, hmem, if_neg hp⟩))
  | add hpath hnew hmounts hrest => exact .inl (hself (hmounts ▸ mem_cons_of_mem _ hmem))
  | @remove other hother hpins hopens hmounts hrest =>
    by_cases hp : mount.path = other.path
    · obtain rfl := hok.eq_of_path hmem hother hp
      exact .inr ⟨hpins, hopens⟩
    · exact .inl (hself (hmounts ▸ mem_filter.mpr ⟨hmem, by simpa using hp⟩))
  | pin hother hmounts hpins | unpin hpin howner hother hid hmounts hpins =>
    refine .inl ⟨_, hmounts ▸ mem_map.mpr ⟨mount, hmem, rfl⟩, ?_⟩
    split <;> exact ⟨rfl, rfl, fun _ => ⟨rfl, rfl⟩⟩

theorem MountStep.released (hok : MountsOk s) (h : MountStep message s s')
    (he : e ∈ s.routePins) (hgone : e ∉ s'.routePins) :
    message.word0 = e.1 ∧ message.sender = e.2.owner := by
  cases h with
  | kept hkept => exact absurd (hkept.routePins ▸ he) hgone
  | redirect _ _ _ hrest | add _ _ _ hrest | remove _ _ _ _ hrest => exact absurd (hrest ▸ he) hgone
  | pin _ _ hpins => exact absurd (hpins ▸ mem_cons_of_mem _ he) hgone
  | unpin hpin howner _ _ _ hpins =>
    have hid : e.1 = message.word0 := by
      by_contra hne
      exact hgone (hpins ▸ mem_filter.mpr ⟨he, by simpa using hne⟩)
    have hlookup : s.routePins.lookup e.1 = some e.2 := AssocList.lookup_of_mem hok.pinIds he
    rw [hid, hpin] at hlookup
    cases hlookup
    exact ⟨hid.symm, howner.symm⟩

theorem mountsOk_run {messages}
    (h : Run (fun s message s' => s.Fits ∧ s.Serves message s') {} messages s) : MountsOk s := by
  refine Run.invariant (fun s message s' hok hstep => hok.step hstep.1 hstep.2.mountStep) h ?_
  constructor <;> simp

/-- **The lifetime of mounts.** In every state that requests lead to, whatever the file servers
answer: a mount has as many pins as name it, and each pin names one; the next request removes no mount
that has pins or open files at or under its path, and redirects none that has pins; it releases only
pins of its sender; and each path is routed to the deepest mount whose names it continues. -/
theorem mount_lifetime {messages : List VfsMessage}
    (hrun : Run (fun s message s' => s.Fits ∧ s.Serves message s') {} messages s) :
    (∀ m ∈ s.mounts, m.pins = s.routePins.countP fun e => e.2.mountId == m.id) ∧
    (∀ e ∈ s.routePins, ∃ m ∈ s.mounts, m.id = e.2.mountId) ∧
    (∀ message s', s.Serves message s' → ∀ m ∈ s.mounts,
      (m.pins ≠ 0 → ∃ m' ∈ s'.mounts, m'.id = m.id ∧ m'.path = m.path ∧
        m'.service = m.service ∧ m'.fstype = m.fstype) ∧
      ((∃ e ∈ s.openFiles, vfsPathIsAtOrUnder e.2.path m.path = true) →
        ∃ m' ∈ s'.mounts, m'.id = m.id ∧ m'.path = m.path)) ∧
    (∀ message s', s.Serves message s' → ∀ e ∈ s.routePins, e ∉ s'.routePins →
      message.sender = e.2.owner) ∧ (∀ path mount, s.mountForPath path = some mount ↔
      mount ∈ s.mounts ∧ path.head? = some '/' ∧ names mount.path <+: names path ∧
        ∀ m ∈ s.mounts, names m.path <+: names path → m ≠ mount →
          (names m.path).length < (names mount.path).length) := by
  have hok := mountsOk_run hrun
  refine ⟨hok.pins, hok.named, fun message s' hserve m hm => ⟨fun hpins => ?_, ?_⟩,
    fun message s' hserve e he hgone => (hserve.mountStep.released hok he hgone).2,
    fun path mount => mountForPath_eq_some hok⟩
  · rcases hserve.mountStep.stays hok hm with ⟨m', hm', hid, hpath, hsame⟩ | ⟨hnone, -⟩
    · exact ⟨m', hm', hid, hpath, hsame hpins⟩
    · exact absurd hnone hpins
  · rintro ⟨e, he, hunder⟩
    rcases hserve.mountStep.stays hok hm with ⟨m', hm', hid, hpath, -⟩ | ⟨-, hnone⟩
    · exact ⟨m', hm', hid, hpath⟩
    · rw [hnone e he] at hunder
      cases hunder

/-! A mount of the root is pinned, and can then be neither redirected nor removed. -/

/-- Answers of an outside in which nothing fails, and no file is there. -/
def quietAnswer : (a : VfsAction) → Unit → a.Result × Unit
  | .call .., _ => (none, ())
  | .createBuffer _, _ | .copyOut .., _ | .allocOpen, _ | .alloc, _ => (true, ())
  | .resolveService _, _ => (5#64, ())
  | .notifyProcfs .., _ => ((), ())

def adminMessage (type : VfsOp) (path : String) : VfsMessage where
  type
  sender := 7
  buffer := some fun _ _ => some path.toList
  word0 := 2
  word1 := 9

def pinRoot : List VfsMessage :=
  [{ type := .grantAdminTask, sender := 7 }, adminMessage .mountBuffer "/", adminMessage .pinRouteBuffer "/x"]

theorem mount_lifetime_pinned : ∃ s : VfsServer, s.mounts = [⟨['/'], 1, 5, 9, 1⟩] ∧
    s.routePins = [(1, ⟨7, 1⟩)] ∧ ∀ message s', s.Serves message s' →
      ∃ m ∈ s'.mounts, m.id = 1 ∧ m.path = ['/'] ∧ m.service = 5 ∧ m.fstype = 9 := by
  have hexec : (Run.exec (fun s message => if s.mounts.length + s.routePins.length < 9 then
      some (Prog.exec quietAnswer (vfsServe message s) ()).1.2 else none) {} pinRoot).any
      (fun s => decide (s.mounts = [⟨['/'], 1, 5, 9, 1⟩] ∧ s.routePins = [(1, ⟨7, 1⟩)])) = true := by
    decide +kernel
  obtain ⟨s, hs, hfound⟩ := (Option.any_eq_true _ _).mp hexec
  obtain ⟨hmounts, hpins⟩ := of_decide_eq_true hfound
  have hrun : Run (fun s message s' => s.Fits ∧ s.Serves message s') {} pinRoot s := by
    refine Run.of_exec (fun s message s' h => ?_) hs
    split at h
    · cases h
      exact ⟨⟨by omega, by omega⟩, _, returns_exec fun _ _ => trivial⟩
    · cases h
  refine ⟨s, hmounts, hpins, fun message s' hserve => ?_⟩
  have hroot : ⟨['/'], 1, 5, 9, 1⟩ ∈ s.mounts := by simp [hmounts]
  exact ((mount_lifetime hrun).2.2.1 message s' hserve _ hroot).1 (by decide)

end Bunix.User
