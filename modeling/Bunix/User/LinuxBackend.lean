import Bunix.Lib.Interp
import Bunix.User.LinuxCalls

/-! # The Linux server: running it

A backend answers what the server asks of others: the VFS behind it, memory, devices, the user server.
The questions to the caches are answered out of a `LinuxCaches`, or by caches that are always empty.
-/
namespace Bunix.User

open Bunix.Lib Prog

variable {B : Type}

/-- How a backend with the state `B` answers. -/
abbrev LinuxAnswers (B : Type) := (a : LinuxAction) → B → a.Result × B

abbrev CachedAnswers (S : Type) := (a : CachedAction) → S → a.Result × S

theorem exec_liftProg (h : CachedAnswers S) (p : Prog LinuxAction LinuxAction.Result β)
    (s : S) : Prog.exec h (liftProg p) s = Prog.exec (fun a => h (.base a)) p s := by
  induction p generalizing s with
  | ret b => rfl
  | act a k ih => exact ih _ _

theorem exec_liftM (h : CachedAnswers S) (m : LinuxM β) (l : LinuxServer) (s : S) :
    Prog.exec h ((liftM m : CachedM β) l) s = Prog.exec (fun a => h (.base a)) (m l) s :=
  exec_liftProg h (m l) s

namespace Linux

/-- What makes entries of the caches invalid. -/
def invalidate (answer : LinuxAnswers B) : LinuxAnswers (LinuxCaches × B)
  | .noteMutation path, (c, b) => ((), c.noteMutation path, b)
  | .accessClear task, (c, b) => ((), c.accessCacheClear task, b)
  | .aheadClear file, (c, b) => ((), c.readaheadClear file, b)
  | a, (c, b) => ((answer a b).1, c, (answer a b).2)

def withCaches (answer : LinuxAnswers B) : CachedAnswers (LinuxCaches × B)
  | .base a, s => invalidate answer a s
  | .accessGet task cwd base path cachePath mode flags, (c, b) =>
    (c.accessCacheGet task cwd base path cachePath mode flags, c, b)
  | .accessPut task cwd base path cachePath mode flags result, (c, b) =>
    ((), c.accessCachePut task cwd base path cachePath mode flags result, b)
  | .statGet task cwd base path cachePath nofollow, (c, b) =>
    (c.statCacheGet task cwd base path cachePath nofollow, c, b)
  | .statPut task cwd base path cachePath nofollow result stat, (c, b) =>
    ((), c.statCachePut task cwd base path cachePath nofollow result stat, b)
  | .readGet path offset len, (c, b) => (c.fileReadCacheGet path offset len, c, b)
  | .readPut path offset len data, (c, b) => ((), c.fileReadCachePut path offset len data, b)
  | .aheadGet file path offset len, (c, b) => (c.readaheadGet file path offset len, c, b)
  | .aheadPut file path offset data, (c, b) => ((), c.readaheadPut file path offset data, b)
  | .aheadReady file, (c, b) => (c.readBuffer file, c, b)
  | .aheadReserve file, (c, b) => ((), c.readaheadReserve file, b)
  | .dirLookup path, (c, b) => (c.dirCacheLookup path, c, b)
  | .dirClaim, (c, b) => (c.dirCacheClaim.1, c.dirCacheClaim.2, b)
  | .dirStore slot path entries, (c, b) => ((), c.dirCacheStore slot path entries, b)

def withoutCaches (answer : LinuxAnswers B) : CachedAnswers B
  | .base (.noteMutation _), b | .base (.accessClear _), b | .base (.aheadClear _), b => ((), b)
  | .base a, b => answer a b
  | .accessGet .., b | .statGet .., b | .readGet .., b | .aheadGet .., b | .dirLookup _, b => (none, b)
  | .aheadReady _, b => (false, b)
  | .dirClaim, b => ((0 : Nat), b)
  | .accessPut .., b | .statPut .., b | .readPut .., b | .aheadPut .., b | .aheadReserve _, b | .dirStore .., b => ((), b)

theorem exec_with (answer : LinuxAnswers B) (p : Prog LinuxAction LinuxAction.Result β)
    (s : LinuxCaches × B) : Prog.exec (fun a => withCaches answer (.base a)) p s =
      Prog.exec (invalidate answer) p s := rfl

theorem exec_without (answer : LinuxAnswers B) (p : Prog LinuxAction LinuxAction.Result β)
    (s : LinuxCaches × B) : Prog.exec (fun a => withoutCaches answer (.base a)) p s.2 =
      ((Prog.exec (invalidate answer) p s).1, (Prog.exec (invalidate answer) p s).2.2) := by
  induction p generalizing s with
  | ret b => rfl
  | act a k ih =>
    cases a with
    | noteMutation path => exact ih _ ((invalidate answer (.noteMutation path) s).2)
    | accessClear task => exact ih _ ((invalidate answer (.accessClear task) s).2)
    | aheadClear file => exact ih _ ((invalidate answer (.aheadClear file) s).2)
    | _ => exact ih _ (s.1, (answer _ s.2).2)

/-- A system call of a task, from the state of the server and of what answers it. -/
def call (answer : CachedAnswers B) (task : U64) (c : LinuxCall) (s : LinuxServer × B) :
    LinuxResult × LinuxServer × B :=
  let r := Prog.exec answer (serve task c s.1) s.2
  (r.1.1, r.1.2, r.2)

/-- What a sequence of calls returns, and the state after it. -/
def calls (answer : CachedAnswers B) : List (U64 × LinuxCall) → LinuxServer × B →
    List LinuxResult × LinuxServer × B
  | [], s => ([], s)
  | (task, c) :: rest, s =>
    let r := call answer task c s
    let rs := calls answer rest r.2
    (r.1 :: rs.1, rs.2)

end Linux

end Bunix.User
