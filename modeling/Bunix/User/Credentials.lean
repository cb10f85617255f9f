import Bunix.Lib.PointUpdate
import Bunix.User.LinuxFiles

/-! # The ids of Linux processes

The user server (`user/user/main.c`) keeps the ids of each process under its task. The Linux server
(`user/linux/main.c`) turns the calls that change them into requests to its management port; the
buffer of `setgroups` is filled by the kernel (`arch/x86_64/user.c`).
-/
namespace Bunix.User

open Bunix.Lib Function Option

def Errno.esrch : Int := 3

structure UserCredential where
  uid : U64
  gid : U64
  euid : U64
  egid : U64
  suid : U64
  sgid : U64
  groups : List U64

abbrev Credentials := U64 → Option UserCredential

/-- What a request meets: whether the server has the management port and the message arrives, and
memory for a credential and for its groups. The capacity of a group array is left out; `groups` is
true as well if the array is large enough. -/
structure UserEnv where
  management : Bool
  delivered : Bool
  credential : Bool
  groups : Bool

/-- What a process asks for. `setgroups` has what the kernel reads at the address of each id;
`setgroupsWords` is the message without a buffer. -/
inductive IdCall
  | setuid (uid : U64)
  | setgid (gid : U64)
  | setresuid (uid euid suid : U64)
  | setresgid (gid egid sgid : U64)
  | setgroups (count : U64) (gids : Nat → Option U32)
  | setgroupsWords (count group0 group1 : U64)
  | fork (child : U64)

namespace Credentials

variable {env : UserEnv} {s s' : Credentials} {task : U64} {c : UserCredential} {call : IdCall}

/-! ## The user server -/

def userIdKeep : U64 := -1
def userWireGroups : U64 := 2

def credentialCanMutate (c : UserCredential) : Bool := c.euid == 0

/-- The common part of the requests that change a credential. -/
def mutate (s : Credentials) (task : U64) (change : UserCredential → Option UserCredential) :
    Bool × Credentials :=
  match ((s task).filter credentialCanMutate).bind change with
  | some c => (true, update s task (some c))
  | none => (false, s)

def orKeep (id old : U64) : U64 := if id = userIdKeep then old else id

def credentialSetresuid (s : Credentials) (task uid euid suid : U64) : Bool × Credentials :=
  s.mutate task fun c =>
    some { c with uid := orKeep uid c.uid, euid := orKeep euid c.euid, suid := orKeep suid c.suid }

def credentialSetresgid (s : Credentials) (task gid egid sgid : U64) : Bool × Credentials :=
  s.mutate task fun c =>
    some { c with gid := orKeep gid c.gid, egid := orKeep egid c.egid, sgid := orKeep sgid c.sgid }

def credentialGroupsSet (env : UserEnv) (groups : List U64) (c : UserCredential) : Option UserCredential :=
  if env.groups then some { c with groups } else none

def credentialSetgroups (env : UserEnv) (s : Credentials) (task count group0 group1 : U64) :
    Bool × Credentials :=
  s.mutate task fun c =>
    if userWireGroups < count then none
    else credentialGroupsSet env ([group0, group1].take count.toNat) c

def credentialSetgroupsBuffer (env : UserEnv) (s : Credentials) (task count : U64) (buffer : List U32) :
    Bool × Credentials :=
  s.mutate task fun c =>
    if buffer.length < count.toNat then none
    else credentialGroupsSet env ((buffer.take count.toNat).map (·.setWidth 64)) c

def credentialFork (env : UserEnv) (s : Credentials) (parent child : U64) : Bool × Credentials :=
  if parent = 0 ∨ child = 0 ∨ (s child).isSome then (false, s)
  else match s parent with
    | none => (false, s)
    | some c =>
      if env.credential = false then (false, s)
      -- a child whose groups cannot be copied leaves the map again
      else match credentialGroupsSet env c.groups c with
        | none => (false, s)
        | some c => (true, update s child (some c))

/-! ## The Linux server -/

/-- A request to the management port, and what the call returns. -/
def linuxUser (env : UserEnv) (s : Credentials) (lost denied : Int)
    (request : Credentials → Bool × Credentials) : Int × Credentials :=
  if env.management = false then (-Errno.esrch, s)
  else if env.delivered = false then (lost, s)
  else match request s with
    | (true, s) => (0, s)
    | (false, s) => (denied, s)

def linuxUserSetres (env : UserEnv) (s : Credentials) := linuxUser env s (-Errno.eio) (-Errno.eperm)

def linuxMaxGroups : U64 := 65536

def serve (env : UserEnv) (s : Credentials) (task : U64) : IdCall → Int × Credentials
  | .setuid uid => linuxUserSetres env s (·.credentialSetresuid task uid uid uid)
  | .setgid gid => linuxUserSetres env s (·.credentialSetresgid task gid gid gid)
  | .setresuid uid euid suid => linuxUserSetres env s (·.credentialSetresuid task uid euid suid)
  | .setresgid gid egid sgid => linuxUserSetres env s (·.credentialSetresgid task gid egid sgid)
  | .setgroups count gids =>
    if linuxMaxGroups < count then (-Errno.einval, s)
    else match (List.range count.toNat).mapM gids with
      | none => (-Errno.efault, s)
      | some buffer => linuxUserSetres env s (credentialSetgroupsBuffer env · task count buffer)
  | .setgroupsWords count group0 group1 =>
    if 2 < count then (-Errno.einval, s)
    else linuxUserSetres env s (credentialSetgroups env · task count group0 group1)
  | .fork child => linuxUser env s (-Errno.esrch) (-Errno.esrch) (credentialFork env · task child)

def run (s : Credentials) (calls : List (UserEnv × U64 × IdCall)) : Credentials :=
  calls.foldl (fun s l => (serve l.1 s l.2.1 l.2.2).2) s

/-! ## What a call can do -/

/-- A call fails, or changes the credential of a process with the effective uid 0, or makes a child. -/
inductive Served (s : Credentials) (task : U64) : IdCall → Int × Credentials → Prop
  | failed {call r} (hr : r ≠ 0) : Served s task call (r, s)
  | changed {call c c'} (hcall : ∀ child, call ≠ .fork child) (hc : s task = some c)
      (root : c.euid = 0) : Served s task call (0, update s task (some c'))
  | forked {child c} (hc : s task = some c) (fresh : s child = none) :
      Served s task (.fork child) (0, update s child (some c))

theorem served_linuxUser {lost denied : Int} (hlost : lost ≠ 0) (hdenied : denied ≠ 0)
    (h : request s = (false, s) ∨ ∃ s', request s = (true, s') ∧ Served s task call (0, s')) :
    Served s task call (linuxUser env s lost denied request) := by
  unfold linuxUser
  split
  · exact .failed (by decide)
  split
  · exact .failed hlost
  rcases h with h | ⟨s', h, hserved⟩ <;> rw [h]
  · exact .failed hdenied
  · exact hserved

theorem served_mutate {change : UserCredential → Option UserCredential}
    (hcall : ∀ child, call ≠ .fork child) :
    Served s task call (linuxUserSetres env s (·.mutate task change)) := by
  refine served_linuxUser (by decide) (by decide) ?_
  unfold mutate
  cases hc : ((s task).filter credentialCanMutate).bind change with
  | none => exact .inl rfl
  | some c' =>
    obtain ⟨c, hfilter, -⟩ := bind_eq_some_iff.mp hc
    obtain ⟨htask, hroot⟩ := filter_eq_some_iff.mp hfilter
    exact .inr ⟨_, rfl, .changed hcall htask (by simpa [credentialCanMutate] using hroot)⟩

theorem served (env : UserEnv) (s : Credentials) (task : U64) (call : IdCall) :
    Served s task call (serve env s task call) := by
  cases call with
  | setuid | setgid | setresuid | setresgid => exact served_mutate (by simp)
  | setgroups count gids =>
    simp only [serve]
    split
    · exact .failed (by decide)
    split
    · exact .failed (by decide)
    · exact served_mutate (by simp)
  | setgroupsWords count group0 group1 =>
    simp only [serve]
    split
    · exact .failed (by decide)
    · exact served_mutate (by simp)
  | fork child =>
    simp only [serve]
    refine served_linuxUser (by decide) (by decide) ?_
    simp only [credentialFork, credentialGroupsSet]
    split
    · exact .inl rfl
    cases hc : s task with
    | none => exact .inl rfl
    | some c =>
      cases env.credential <;> cases env.groups
      · exact .inl rfl
      · exact .inl rfl
      · exact .inl rfl
      · exact .inr ⟨_, rfl, .forked hc (by simp_all)⟩

theorem Served.keeps (h : Served s task call (r, s')) (hc : s t = some c) (hroot : c.euid ≠ 0) :
    s' t = some c := by
  cases h with
  | failed => exact hc
  | changed _ htask root =>
    refine update_cases (fun ht => ?_) fun _ => hc
    rw [← ht, hc] at htask
    cases htask
    exact absurd root hroot
  | forked htask fresh =>
    refine update_cases (fun ht => ?_) fun _ => hc
    rw [← ht, hc] at fresh
    cases fresh

theorem Served.unchanged (h : Served s task call (r, s')) (hr : r ≠ 0) : s' = s := by
  cases h with
  | failed => rfl
  | changed | forked => exact absurd rfl hr

theorem Served.of_fork (h : Served s task (.fork child) (r, s')) (hr : r = 0) :
    ∃ c, s task = some c ∧ s' = update s child (some c) := by
  cases h with
  | failed hne => exact absurd hr hne
  | changed hcall => exact absurd rfl (hcall child)
  | forked hc => exact ⟨_, hc, rfl⟩

theorem Served.fork_of_ne (h : Served s task call (r, s')) (hc : s task = some c) (hroot : c.euid ≠ 0)
    (hr : r = 0) : ∃ child, call = .fork child := by
  cases h with
  | failed hne => exact absurd hr hne
  | changed _ hc' root =>
    rw [hc] at hc'
    cases hc'
    exact absurd root hroot
  | forked => exact ⟨_, rfl⟩

theorem run_keeps (calls : List (UserEnv × U64 × IdCall)) (hc : s t = some c) (hroot : c.euid ≠ 0) :
    s.run calls t = some c := by
  induction calls generalizing s with
  | nil => exact hc
  | cons l calls ih => exact ih ((served l.1 s l.2.1 l.2.2).keeps hc hroot)

theorem mutate_root {change} (hc : s task = some c) (hroot : c.euid = 0) (hm : env.management = true)
    (hd : env.delivered = true) (hchange : change c = some c') :
    linuxUserSetres env s (·.mutate task change) = (0, update s task (some c')) := by
  simp [linuxUserSetres, linuxUser, mutate, hm, hd, hc, filter_some, credentialCanMutate, hroot, hchange]

/-- A process that is not root keeps its ids and groups, root may set its ids, a call that fails
changes nothing, and a child has what its parent has. -/
theorem identities_follow_rules (s : Credentials) (calls : List (UserEnv × U64 × IdCall)) :
    (∀ task c, s task = some c → c.euid ≠ 0 → s.run calls task = some c) ∧
    ∀ env task, let s := s.run calls
      (∀ call, (serve env s task call).1 ≠ 0 → (serve env s task call).2 = s) ∧
      (∀ child, (serve env s task (.fork child)).1 = 0 →
        ∃ c, s task = some c ∧ (serve env s task (.fork child)).2 = update s child (some c)) ∧
      ∀ c, s task = some c →
        (c.euid ≠ 0 → ∀ call, (serve env s task call).1 = 0 → ∃ child, call = .fork child) ∧
        (c.euid = 0 → env.management = true → env.delivered = true → ∀ real effective saved : U64,
          (∀ id ∈ [real, effective, saved], id = -1 ∨ id.toNat < 2 ^ 32 - 1) →
            serve env s task (.setresuid real effective saved) = (0, update s task (some { c with
              uid := if real = -1 then c.uid else real
              euid := if effective = -1 then c.euid else effective
              suid := if saved = -1 then c.suid else saved })) ∧
            serve env s task (.setresgid real effective saved) = (0, update s task (some { c with
              gid := if real = -1 then c.gid else real
              egid := if effective = -1 then c.egid else effective
              sgid := if saved = -1 then c.sgid else saved })) ∧
            serve env s task (.setuid real) = serve env s task (.setresuid real real real) ∧
            serve env s task (.setgid real) = serve env s task (.setresgid real real real)) := by
  refine ⟨fun task c => run_keeps calls, fun env task => ?_⟩
  generalize s.run calls = s
  have h := served env s task
  refine ⟨fun call => (h call).unchanged, fun child => (h _).of_fork,
    fun c hc => ⟨fun hroot call => (h call).fork_of_ne hc hroot, ?_⟩⟩
  intro hroot hm hd real effective saved _
  exact ⟨mutate_root hc hroot hm hd rfl, mutate_root hc hroot hm hd rfl, rfl, rfl⟩

/-- A process with the uids 1000, 1000 and 0 cannot make its saved uid the effective one. -/
theorem saved_uid_not_taken :
    let c : UserCredential := ⟨1000, 100, 1000, 100, 0, 100, []⟩
    serve ⟨true, true, true, true⟩ (update (fun _ => none) 7 (some c)) 7
        (.setresuid c.uid c.suid c.suid) = (-Errno.eperm, update (fun _ => none) 7 (some c)) := by
  rfl

end Credentials

end Bunix.User
