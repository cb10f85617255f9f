import Bunix.Lib.PointUpdate
import Bunix.User.FileStack
import Bunix.User.LinuxRequests

/-! # Cached answers to access checks

The Linux server remembers what the file system answered to `faccessat`, by the text of the path and
an epoch, and for paths below `/etc` and `/run` it gives the answer to whoever asks next. So what a
process is told is the answer to an earlier question that met in a key. It is the process's own
answer at that moment as long as the file system answers questions that meet the same way.
-/
namespace Bunix.User

open Bunix.Lib Prog Function Linux List Option

variable {past' : List AccessAsk} {e : PathEntry} {cwd path : Path} {base mode dirfd flags : U64}
  {result : Int} {l : LinuxServer} {arg : Option Path}

/-! ## Entries -/

namespace Ring

variable {α β : Type} {P : α → Prop} {ring : Ring α}

def All (P : α → Prop) (ring : Ring α) : Prop := ∀ i e, ring.slots i = some e → P e

theorem All.put (h : All P ring) {e : α} (he : P e) (size : Nat) : All P (ring.put size e) := by
  intro i e' hi
  replace hi : update ring.slots (ring.next.toNat % size) (some e) i = some e' := hi
  by_cases hslot : i = ring.next.toNat % size
  · subst hslot
    rw [update_self] at hi
    obtain rfl := some.inj hi
    exact he
  · rw [update_of_ne hslot] at hi
    exact h i e' hi

theorem All.mono {Q : α → Prop} (h : All P ring) (hPQ : ∀ e, P e → Q e) : All Q ring :=
  fun i e hi => hPQ e (h i e hi)

theorem All.find (h : All P ring) {size}
    (hfind : ring.find size f = some b) : ∃ e, P e ∧ f e = some b := by
  obtain ⟨i, -, hi⟩ := exists_of_findSome?_eq_some hfind
  obtain ⟨e, hslot, he⟩ := bind_eq_some_iff.mp hi
  exact ⟨e, h i e hslot, he⟩

theorem all_empty : All P {} := fun _ _ h => by cases h

end Ring

/-- A question to the file system in the course of `faccessat`, with the answer to it. -/
structure AccessAsk where
  task : U64
  base : U64
  path : Path
  /-- The path under which all processes share the answer. -/
  key : Option Path
  /-- The domain of the path for the process alone. -/
  domain : CacheDomain
  mode : U64
  flags : U64
  epochs : CacheDomain → U64
  /-- `none` if the file system could not be asked. -/
  answer : Option Int

/-- The questions share an entry of the cache of all processes. -/
structure MeetsGlobal (a a' : AccessAsk) (path : Path) : Prop where
  key : a.key = some path
  key' : a'.key = some path
  allowed : globalPathCacheAllowed path = true
  epoch : a.epochs (cacheDomainForPath none path) = a'.epochs (cacheDomainForPath none path)

/-- The questions share an entry of the cache of one process. -/
structure MeetsTask (a a' : AccessAsk) : Prop where
  task : a.task = a'.task
  base : a.base = a'.base
  path : a.path = a'.path
  domain : a.domain = a'.domain
  epoch : a.epochs a.domain = a'.epochs a.domain

/-- The answer to the one question is taken for that to the other. -/
def Meets (a a' : AccessAsk) : Prop :=
  a.mode = a'.mode ∧ a.flags = a'.flags ∧ ((∃ key, MeetsGlobal a a' key) ∨ MeetsTask a a')

/-- Where an entry that all processes share comes from. -/
def FromGlobal (past : List AccessAsk) : PathEntry → Prop
  | .access _ mode flags stamp result => ∃ a ∈ past, a.mode = mode ∧ a.flags = flags ∧
      a.key = some stamp.path ∧ globalPathCacheAllowed stamp.path = true ∧
      stamp.domain = cacheDomainForPath none stamp.path ∧ a.epochs stamp.domain = stamp.epoch ∧
      a.answer = some result
  | .stat .. => True

/-- Where an entry of the process of a task comes from. -/
def FromTask (past : List AccessAsk) (task : U64) : PathEntry → Prop
  | .access base mode flags stamp result => ∃ a ∈ past, a.mode = mode ∧ a.flags = flags ∧
      a.task = task ∧ a.base = base ∧ a.path = stamp.path ∧ a.domain = stamp.domain ∧
      a.epochs stamp.domain = stamp.epoch ∧ a.answer = some result
  | .stat .. => True

structure AccessInv (past : List AccessAsk) (c : LinuxCaches) : Prop where
  global : c.globalPath.All (FromGlobal past)
  task : ∀ task, (c.access task).All (FromTask past task)

variable {past : List AccessAsk} {c : LinuxCaches} {task : U64}

theorem FromGlobal.mono (hpast : ∀ a ∈ past, a ∈ past')
    (h : FromGlobal past e) : FromGlobal past' e := by
  cases e with
  | access base mode flags stamp result =>
    obtain ⟨a, ha, hrest⟩ := h
    exact ⟨a, hpast a ha, hrest⟩
  | stat => trivial

theorem FromTask.mono (hpast : ∀ a ∈ past, a ∈ past')
    (h : FromTask past task e) : FromTask past' task e := by
  cases e with
  | access base mode flags stamp result =>
    obtain ⟨a, ha, hrest⟩ := h
    exact ⟨a, hpast a ha, hrest⟩
  | stat => trivial

theorem accessHit_some {base stamp} (h : LinuxCaches.accessHit base mode flags stamp e = some result) :
    ∃ base', base.all (· == base') = true ∧ e = .access base' mode flags stamp result := by
  cases e with
  | stat => cases h
  | access base' mode' flags' stamp' r =>
    dsimp only [LinuxCaches.accessHit] at h
    split at h
    · rename_i hmatch
      obtain ⟨hbase, rfl, rfl, rfl⟩ := hmatch
      obtain rfl := some.inj h
      exact ⟨base', hbase, rfl⟩
    · cases h

namespace AccessInv

theorem empty : AccessInv past {} := ⟨Ring.all_empty, fun _ => Ring.all_empty⟩

section
variable (h : AccessInv past c)
include h

theorem mono (hpast : ∀ a ∈ past, a ∈ past') :
    AccessInv past' c :=
  ⟨h.global.mono fun _ => .mono hpast, fun task => (h.task task).mono fun _ => .mono hpast⟩

theorem congr (hglobal : c'.globalPath = c.globalPath)
    (haccess : c'.access = c.access) : AccessInv past c' :=
  ⟨hglobal ▸ h.global, haccess ▸ h.task⟩

theorem setAccess {ring} (hring : ring.All (FromTask past task)) :
    AccessInv past { c with access := update c.access task ring } where
  global := h.global
  task := fun task' => by
    show Ring.All _ (update c.access task _ task')
    exact update_cases (fun htask => htask ▸ hring) fun _ => h.task task'

theorem putAccess (he : FromTask past task e) : AccessInv past (c.putAccess task e) :=
  h.setAccess ((h.task task).put he _)

theorem accessClear : AccessInv past (c.accessCacheClear task) := h.setAccess Ring.all_empty

theorem noteMutation (path : Option Path) :
    AccessInv past (c.noteMutation path) := by
  cases path with
  | none | some path => exact h.congr rfl rfl

theorem statPut {nofollow key stat} :
    AccessInv past (c.statCachePut task cwd base path key nofollow result stat) := by
  have hglobal : AccessInv past (c.globalStatCachePut key nofollow result stat) := by
    unfold LinuxCaches.globalStatCachePut
    split
    · exact h
    · exact ⟨h.global.put (e := .stat ..) trivial _, h.task⟩
  exact hglobal.putAccess trivial

theorem readPut {offset len data} :
    AccessInv past (c.fileReadCachePut path offset len data) := by
  unfold LinuxCaches.fileReadCachePut
  split
  · exact h
  split
  · exact h.congr rfl rfl
  · exact h.congr rfl rfl

theorem dirClaim : AccessInv past c.dirCacheClaim.2 := by
  unfold LinuxCaches.dirCacheClaim
  split
  · exact h
  · exact h.congr rfl rfl

theorem accessPut {a : AccessAsk} (ha : a ∈ past)
    (hdomain : a.domain = cacheDomainForPath (some cwd) a.path) (hepochs : a.epochs = c.epochs)
    (hanswer : a.answer = some result) :
    AccessInv past (c.accessCachePut a.task cwd a.base a.path a.key a.mode a.flags result) := by
  have hglobal : AccessInv past (c.globalAccessCachePut a.key a.mode a.flags result) := by
    unfold LinuxCaches.globalAccessCachePut
    split
    · exact h
    rename_i key hkey
    obtain ⟨hkey, hallowed⟩ := filter_eq_some_iff.mp hkey
    have hfrom : FromGlobal past (.access 0 a.mode a.flags
        (c.stamp (cacheDomainForPath none key) key) result) :=
      ⟨a, ha, rfl, rfl, hkey, hallowed, rfl, congrFun hepochs _, hanswer⟩
    exact ⟨h.global.put hfrom _, h.task⟩
  exact hglobal.putAccess ⟨a, ha, rfl, rfl, rfl, rfl, rfl, hdomain, congrFun hepochs _, hanswer⟩

theorem hit (hdomain : a.domain = cacheDomainForPath (some cwd) a.path) (hepochs : a.epochs = c.epochs)
    (hget : c.accessCacheGet a.task cwd a.base a.path a.key a.mode a.flags = some result) :
    ∃ a' ∈ past, Meets a' a ∧ a'.answer = some result := by
  rcases or_eq_some_iff.mp hget with hget | ⟨-, hget⟩
  · unfold LinuxCaches.globalAccessCacheGet at hget
    split at hget
    · cases hget
    rename_i key hkey
    obtain ⟨hkey, hallowed⟩ := filter_eq_some_iff.mp hkey
    obtain ⟨e, he, hhit⟩ := h.global.find hget
    obtain ⟨base, -, rfl⟩ := accessHit_some hhit
    obtain ⟨a', ha', hmode, hflags, hkey', -, -, hepoch, hanswer⟩ := he
    refine ⟨a', ha', ⟨hmode, hflags, .inl ⟨key, hkey', hkey, hallowed, ?_⟩⟩, hanswer⟩
    exact hepoch.trans (congrFun hepochs _).symm
  · obtain ⟨e, he, hhit⟩ := (h.task a.task).find hget
    obtain ⟨base, hbase, rfl⟩ := accessHit_some hhit
    obtain ⟨a', ha', hmode, hflags, htask, hbase', hpath, hdom, hepoch, hanswer⟩ := he
    have hbase : a.base = base := by simpa using hbase
    refine ⟨a', ha', ⟨hmode, hflags, .inr ⟨htask, hbase'.trans hbase.symm, hpath,
      hdom.trans hdomain.symm, ?_⟩⟩, hanswer⟩
    rw [hdom, hepoch, hepochs]
    rfl

end

end AccessInv

/-! ## Calls -/

variable {B : Type} {answer : LinuxAnswers B} {s : LinuxCaches × B}

/-- All but to put an answer into the caches. -/
def NoAnswer : CachedAction → Prop
  | .accessPut .. => False
  | _ => True

theorem accessInv_base (a : LinuxAction) (h : AccessInv past s.1) :
    AccessInv past (invalidate answer a s).2.1 := by
  cases a with
  | noteMutation path => exact h.noteMutation path
  | accessClear task => exact h.accessClear
  | aheadClear file => exact h.congr rfl rfl
  | _ => exact h

theorem accessInv_action {a : CachedAction} (ha : Does (fun _ => True) NoAnswer a)
    (h : AccessInv past s.1) : AccessInv past (withCaches answer a s).2.1 := by
  cases a with
  | base a => exact accessInv_base a h
  | accessPut => exact ha.elim
  | statPut => exact h.statPut
  | readPut => exact h.readPut
  | aheadPut | aheadReserve | dirStore => exact h.congr rfl rfl
  | dirClaim => exact h.dirClaim
  | _ => exact h

theorem accessInv_program
    (h : AccessInv past s.1) : AccessInv past (exec (invalidate answer) p s).2.1 := by
  induction p generalizing s with
  | ret b => exact h
  | act a k ih => exact ih _ (accessInv_base a h)

theorem accessInv_other {c : LinuxCall} {s : LinuxServer × LinuxCaches × B}
    (haccess : ∀ dirfd path mode flags, c ≠ .faccessat dirfd path mode flags)
    (h : AccessInv past s.2.1) :
    AccessInv past (call (withCaches answer) task c s).2.2.1 := by
  have hserve : AskedCached (fun _ => True) NoAnswer (serve task c) s.1 := by
    refine asked_serve (fun a ha => ?_) haccess
    cases a with
    | accessPut => rcases ha with ha | ha | ha <;> exact ha
    | _ => trivial
  exact exec_invariant (fun s : LinuxCaches × B => AccessInv past s.1)
    (fun a s hs ha => accessInv_action ha hs) h (Only.along hserve)

/-! ## The question of a call -/

/-- The question in the state in which the path is known. -/
def askAt (answer : LinuxAnswers B) (task dirfd mode flags : U64) (l : LinuxServer)
    (s : LinuxCaches × B) (path : Path) (base : U64) : AccessAsk where
  task
  base
  path
  key := l.cachePathForDirfd task dirfd path
  domain := cacheDomainForPath (some (l.proc task).cwd) path
  mode
  flags
  epochs := s.1.epochs
  answer := (exec (invalidate answer) (accessCall task base path mode l) s).1.1

/-- What `faccessat` asks the file system, or would ask if the answer were not in the caches. -/
def askOf (answer : LinuxAnswers B) (task : U64) (s : LinuxServer × LinuxCaches × B) :
    LinuxCall → Option AccessAsk
  | .faccessat dirfd arg mode flags =>
    if (s.1.process task).isNone then none
    else if mode &&& ~~~7 ≠ 0 ∨ flags &&& ~~~(atEaccess ||| atSymlinkNofollow) ≠ 0 then none
    else
      let r := exec (invalidate answer) (pathAndBase task dirfd arg s.1) s.2
      r.1.1.toOption.map fun found => askAt answer task dirfd mode flags r.1.2 r.2 found.1 found.2
  | _ => none

/-- All but what makes entries invalid. -/
def KeepsCaches : LinuxAction → Prop
  | .noteMutation _ | .accessClear _ | .aheadClear _ => False
  | _ => True

theorem caches_accessCall :
    (exec (invalidate answer) (accessCall task base path mode l) s).2.1 = s.1 := by
  have hkeeps : Only (fun _ _ => True) KeepsCaches (accessCall task base path mode l)
      fun _ => True := by
    refine only_bindT.mpr (only_bindT.mpr (only_bindT.mpr ⟨trivial, fun (created : Bool) _ => ?_⟩))
    show Only _ _ ((if created = false ∨ l.pathsFit task [path] = false then
      (pure none : LinuxM (Option VfsReply)) else vfs _) l) _
    split
    · trivial
    · exact ⟨trivial, fun reply _ => by cases reply <;> trivial⟩
  refine exec_invariant (fun u : LinuxCaches × B => u.1 = s.1) (fun a u hu ha => ?_) rfl
    (Only.along hkeeps)
  cases a with
  | noteMutation | accessClear | aheadClear => exact ha.elim
  | _ => exact hu

/-- `faccessat` once the path is known: an answer of the caches, or that of the file system. -/
theorem exec_accessAt :
    let cwd := (l.proc task).cwd
    let key := l.cachePathForDirfd task dirfd path
    let q := exec (invalidate answer) (accessCall task base path mode l) s
    exec (withCaches answer) (accessAt task dirfd path base mode flags l) s =
      match s.1.accessCacheGet task cwd base path key mode flags, q.1.1 with
      | some result, _ => ((result, l), s)
      | none, none => ((-Errno.eio, q.1.2), q.2)
      | none, some result =>
        ((result, q.1.2), q.2.1.accessCachePut task cwd base path key mode flags result, q.2.2) := by
  intro cwd key q
  have hget : exec (withCaches answer) (accessGet task cwd base path key mode flags l) s =
      ((s.1.accessCacheGet task cwd base path key mode flags, l), s) := rfl
  have hcall : exec (withCaches answer)
      ((liftM (accessCall task base path mode) : CachedM (Option Int)) l) s = q :=
    exec_liftM _ _ _ _
  unfold accessAt
  rw [exec_bindT]
  show exec _ ((accessGet task cwd base path key mode flags >>= _) l) s = _
  rw [exec_bindT, hget]
  cases s.1.accessCacheGet task cwd base path key mode flags with
  | some result => rfl
  | none =>
    rw [exec_bindT, hcall]
    cases q.1.1 with
    | none | some result => rfl

theorem exec_accessAt_without :
    let q := exec (invalidate answer) (accessCall task base path mode l) s
    (exec (withoutCaches answer) (accessAt task dirfd path base mode flags l) s.2).1.1 =
      q.1.1.getD (-Errno.eio) := by
  intro q
  have hcall : exec (withoutCaches answer)
      ((liftM (accessCall task base path mode) : CachedM (Option Int)) l) s.2 = (q.1, q.2.2) :=
    (exec_liftM _ _ _ _).trans (exec_without answer _ s)
  unfold accessAt
  rw [exec_bindT, exec_bindT]
  show (exec _ (((liftM (accessCall task base path mode) : CachedM (Option Int)) >>= _) l)
    s.2).1.1 = _
  rw [exec_bindT, hcall]
  cases q.1.1 with
  | none | some result => rfl

/-- A call of `faccessat`, whatever answers it. -/
theorem exec_serve_faccessat (h : CachedAnswers S) (l : LinuxServer) (u : S)
    (task dirfd mode flags : U64) (arg : Option Path) :
    exec h (serve task (.faccessat dirfd arg mode flags) l) u =
      if (l.process task).isNone then (({ value := -3 }, l), u)
      else if mode &&& ~~~7 ≠ 0 ∨ flags &&& ~~~(atEaccess ||| atSymlinkNofollow) ≠ 0 then
        (({ value := -Errno.einval }, l), u)
      else
        let r := exec (fun a => h (.base a)) (pathAndBase task dirfd arg l) u
        match r.1.1 with
        | .error e => (({ value := e }, r.1.2), r.2)
        | .ok found =>
          let q := exec h (accessAt task dirfd found.1 found.2 mode flags r.1.2) r.2
          (({ value := q.1.1 }, q.1.2), q.2) := by
  show exec h ((if registers (.faccessat dirfd arg mode flags) = false ∧ (l.process task).isNone
    then (pure { value := -3 } : CachedM LinuxResult) else faccessat task dirfd arg mode flags >>=
      fun value => (pure { value } : CachedM LinuxResult)) l) u = _
  by_cases hnone : (l.process task).isNone
  · rw [if_pos ⟨rfl, hnone⟩, if_pos hnone]
    rfl
  rw [if_neg (fun hand => hnone hand.2), if_neg hnone, exec_bindT]
  unfold faccessat
  split
  · rfl
  rw [exec_bindT, exec_liftM]
  generalize exec (fun a => h (.base a)) (pathAndBase task dirfd arg l) u = r
  obtain ⟨⟨found, l'⟩, u'⟩ := r
  cases found <;> rfl

/-- **One `faccessat`.** What it returns is the file system's answer if that is also the answer to the
earlier questions which the present one meets; and the present one is now among those whose answers
may be cached. -/
theorem faccessat_outcome (hinv : AccessInv past s.1) :
    AccessInv (past ++ (askOf answer task (l, s) (.faccessat dirfd arg mode flags)).toList)
      (call (withCaches answer) task (.faccessat dirfd arg mode flags) (l, s)).2.2.1 ∧
    ((∀ a, askOf answer task (l, s) (.faccessat dirfd arg mode flags) = some a →
      ∀ a' ∈ past, Meets a' a → a.answer = a'.answer) →
    (call (withCaches answer) task (.faccessat dirfd arg mode flags) (l, s)).1 =
      (call (withoutCaches answer) task (.faccessat dirfd arg mode flags) (l, s.2)).1) := by
  have hinv' : AccessInv past (exec (invalidate answer) (pathAndBase task dirfd arg l) s).2.1 :=
    accessInv_program hinv
  have hmono : ∀ {c : LinuxCaches} (asks : List AccessAsk), AccessInv past c → AccessInv (past ++ asks) c :=
    fun asks h => h.mono fun _ => mem_append_left _
  unfold call
  dsimp only [askOf]
  rw [exec_serve_faccessat, exec_serve_faccessat, exec_without answer, exec_with]
  by_cases hnone : (l.process task).isNone
  · rw [if_pos hnone, if_pos hnone, if_pos hnone]
    exact ⟨hmono _ hinv, fun _ => rfl⟩
  rw [if_neg hnone, if_neg hnone, if_neg hnone]
  by_cases hbad : mode &&& ~~~7 ≠ 0 ∨ flags &&& ~~~(atEaccess ||| atSymlinkNofollow) ≠ 0
  · rw [if_pos hbad, if_pos hbad, if_pos hbad]
    exact ⟨hmono _ hinv, fun _ => rfl⟩
  rw [if_neg hbad, if_neg hbad, if_neg hbad]
  generalize exec (invalidate answer) (pathAndBase task dirfd arg l) s = r at hinv' ⊢
  obtain ⟨⟨found, l'⟩, s'⟩ := r
  cases found with
  | error e => exact ⟨hmono _ hinv', fun _ => rfl⟩
  | ok found =>
    have hcaches : (exec (invalidate answer) (accessCall task found.2 found.1 mode l')
        s').2.1 = s'.1 := caches_accessCall
    dsimp only at hinv' ⊢
    rw [exec_accessAt_without, exec_accessAt]
    cases hget : s'.1.accessCacheGet task (l'.proc task).cwd found.2 found.1
        (l'.cachePathForDirfd task dirfd found.1) mode flags with
    | some result =>
      refine ⟨hmono _ hinv', fun hmeets => ?_⟩
      obtain ⟨a', ha', hm, hanswer⟩ := hinv'.hit
        (a := askAt answer task dirfd mode flags l' s' found.1 found.2) rfl rfl hget
      have hown : (exec (invalidate answer) (accessCall task found.2 found.1 mode l')
          s').1.1 = some result := (hmeets _ rfl a' ha' hm).trans hanswer
      rw [hown]
      rfl
    | none =>
      cases hown : (exec (invalidate answer) (accessCall task found.2 found.1 mode l')
          s').1.1 with
      | none =>
        refine ⟨hmono _ ?_, fun _ => rfl⟩
        rw [hcaches]
        exact hinv'
      | some result =>
        rw [hcaches]
        exact ⟨(hmono _ hinv').accessPut
         
          (mem_append_right _ mem_cons_self) rfl rfl hown, fun _ => rfl⟩

/-! ## Runs -/

def asksOf (answer : LinuxAnswers B) : List (U64 × LinuxCall) → LinuxServer × LinuxCaches × B →
    List AccessAsk
  | [], _ => []
  | (task, c) :: rest, s => (askOf answer task s c).toList ++
      asksOf answer rest (call (withCaches answer) task c s).2

theorem asksOf_append (before after : List (U64 × LinuxCall)) (s : LinuxServer × LinuxCaches × B) :
    asksOf answer (before ++ after) s =
      asksOf answer before s ++ asksOf answer after (calls (withCaches answer) before s).2 := by
  induction before generalizing s with
  | nil => rfl
  | cons head rest ih =>
    show _ ++ asksOf answer (rest ++ after) _ = _ ++ asksOf answer rest _ ++ _
    rw [ih, append_assoc]
    rfl

theorem accessInv_call (answer : LinuxAnswers B) (task : U64) (c : LinuxCall)
    {s : LinuxServer × LinuxCaches × B} (h : AccessInv past s.2.1) :
    AccessInv (past ++ (askOf answer task s c).toList)
      (call (withCaches answer) task c s).2.2.1 := by
  by_cases haccess : ∀ dirfd path mode flags, c ≠ .faccessat dirfd path mode flags
  · exact (accessInv_other haccess h).mono fun _ => mem_append_left _
  · push Not at haccess
    obtain ⟨dirfd, path, mode, flags, rfl⟩ := haccess
    exact (faccessat_outcome h).1

theorem accessInv_calls (answer : LinuxAnswers B) (history : List (U64 × LinuxCall))
    {s : LinuxServer × LinuxCaches × B} (h : AccessInv past s.2.1) :
    AccessInv (past ++ asksOf answer history s)
      (calls (withCaches answer) history s).2.2.1 := by
  induction history generalizing past s with
  | nil => exact h.mono fun _ => mem_append_left _
  | cons head rest ih =>
    obtain ⟨task, c⟩ := head
    have hrest := ih (accessInv_call answer task c h)
    rw [append_assoc] at hrest
    exact hrest

/-- Questions of a run that meet are answered the same. -/
def Coherent (answer : LinuxAnswers B) (history : List (U64 × LinuxCall))
    (s : LinuxServer × LinuxCaches × B) : Prop :=
  (asksOf answer history s).Pairwise fun a a' => Meets a a' → a'.answer = a.answer

/-- **In every run in which the file system answers the questions that meet the same way, each
`faccessat` returns what it would return without caches.** -/
theorem faccessat_uncached {l : LinuxServer} {b : B} {history : List (U64 × LinuxCall)}
    (hcoherent : Coherent answer history (l, {}, b)) (before after : List (U64 × LinuxCall))
    (task dirfd mode flags : U64) (path : Option Path)
    (hhistory : history = before ++ (task, .faccessat dirfd path mode flags) :: after) :
    let s := (calls (withCaches answer) before (l, {}, b)).2
    (call (withCaches answer) task (.faccessat dirfd path mode flags) s).1 =
      (call (withoutCaches answer) task (.faccessat dirfd path mode flags) (s.1, s.2.2)).1 := by
  intro s
  have hinv : AccessInv ([] ++ asksOf answer before (l, {}, b)) s.2.1 :=
    accessInv_calls answer before AccessInv.empty
  subst hhistory
  unfold Coherent at hcoherent
  rw [asksOf_append] at hcoherent
  refine (faccessat_outcome hinv).2 fun a ha a' ha' hm => ?_
  have hpair := (pairwise_append.mp hcoherent).2.2 a' ha' a ?_
  · exact hpair hm
  · show a ∈ (askOf answer task s (.faccessat dirfd path mode flags)).toList ++ _
    rw [show askOf answer task s (.faccessat dirfd path mode flags) = some a from ha]
    exact mem_append_left _ mem_cons_self

/-! ## A file of root below `/etc` -/

/-- The file system after boot, with a file `/etc/f` that only root may read. -/
def etcStack : FileStack Unit where
  vfs := {
    mounts := [{ path := ['/'], id := 1, service := 9, fstype := 0 }]
    subjectIssuers := [3] }
  tmpfs := {
    Tmpfs.init (fun _ => true) with
    index := fun path => if path = "/etc".toList then some 0
      else if path = "/etc/f".toList then some 1 else none
    list := [1, 0]
    file := fun f => if f = 0 then some { path := "/etc".toList, refs := 1, inode := 0 }
      else if f = 1 then some { path := "/etc/f".toList, refs := 1, inode := 1 } else none
    inode := fun i => if i = 0 then some { ino := 2, type := .directory, mode := 0o755, uid := 0, gid := 0 }
      else if i = 1 then some { ino := 3, type := .regular, mode := 0o600, uid := 0, gid := 0 } else none
    nextFile := 2
    nextInode := 2
    nextInodeId := 4
    vfsCallers := [2] }
  outside := ()

/-- The Linux server, with processes of the tasks 1 and 7. -/
def etcServer : LinuxServer where
  self := 3
  process := fun task => if task = 1 ∨ task = 7 then some { pid := task, fds := replicate 4 {} } else none

def readableEtc : LinuxCall := .faccessat atFdcwd (some "/etc/f".toList) 4 0

theorem faccessat_uncached_root :
    let s := (calls (withCaches (stackAnswer rootEnv)) [(1, readableEtc)]
      (etcServer, {}, etcStack)).2
    (call (withCaches (stackAnswer rootEnv)) 1 readableEtc s).1 =
      (call (withoutCaches (stackAnswer rootEnv)) 1 readableEtc (s.1, s.2.2)).1 := by
  have hsame : (asksOf (stackAnswer rootEnv) [(1, readableEtc), (1, readableEtc)]
      (etcServer, {}, etcStack)).Pairwise fun a a' => a'.answer = a.answer := by
    decide +kernel
  have hcoherent : Coherent (stackAnswer rootEnv) [(1, readableEtc), (1, readableEtc)]
      (etcServer, {}, etcStack) :=
    hsame.imp fun {a a'} h (_ : Meets a a') => h
  exact faccessat_uncached hcoherent [(1, readableEtc)] [] 1 atFdcwd 4 0 (some "/etc/f".toList) rfl

theorem faccessat_other_user :
    let s := (calls (withCaches (stackAnswer rootEnv)) [(1, readableEtc)]
      (etcServer, {}, etcStack)).2
    (rootEnv.tmpfs etcStack.outside).geteuid 7 = some 1000 ∧
    (call (withoutCaches (stackAnswer rootEnv)) 7 readableEtc (s.1, s.2.2)).1 =
      { value := -Errno.eacces } ∧
    (call (withCaches (stackAnswer rootEnv)) 7 readableEtc s).1 = { value := 0 } := by
  decide +kernel

end Bunix.User
