import Stm32Handler.Lib.Run
import Stm32Handler.Web.Httpd

/-!
# The connections of the web server

`http_run_task` of `httpd.c`: it accepts a connection, receives until the engine has
seen a full package, closes and deletes the connection, and accepts the next. What
an engine must do for a connection to be released is said for any engine
(`released_iff`): the error path sets no flag. The engine of the repository is an
empty function, so a connection is never released.

The flag lies in front of `rx_buffer`, where no copy reaches it.
-/

namespace Stm32Handler.Web

/-- `err_t`. -/
inductive Err
  | ok | mem | buf | timeout | rte | inProgress | val | wouldBlock | use | already | isConn | conn
  | netif | abrt | rst | clsd | arg
  deriving DecidableEq

/-- What `netconn_recv` gives: `inbuf` is only looked at with `ERR_OK`. -/
structure RecvResult where
  httpErr : Err
  inbuf : List Pbuf

/-- The call the task makes next; `test` is the condition of its loop. -/
inductive Pc
  | accept | recv | test | close | delete

/-- The task, and how often it has called `netconn_recv`, `netconn_close` and
`netconn_delete` on its connection. -/
structure Task where
  pc : Pc
  server : HttpServer
  recvs : ℕ := 0
  closes : ℕ := 0
  deletes : ℕ := 0

inductive Event
  | accept (httpErr : Err)
  | recv (result : RecvResult)
  | test
  | close
  | delete

/-- An engine gets `rx_buffer` and `rx_length`, and may change the server. -/
abbrev Engine := Buf → BitVec 16 → HttpServer → HttpServer

/-- `http_server_engine`, whose body is empty. -/
def httpServerEngine : Engine := fun _ _ server => server

section Model

variable (engine : Engine)

/-- The loop body behind `netconn_recv`. -/
def handle (result : RecvResult) (server : HttpServer) : HttpServer :=
  if result.httpErr = .ok then
    let server := (receive result.inbuf server).1
    engine server.rxBuffer (server.rxLength.setWidth 16) server
  else server

/-- The task at a connection just accepted. -/
def accepted (server : HttpServer) : Task where
  pc := .recv
  server := { server with fullPackage := 0 }

def step (t : Task) (e : Event) : Option Task :=
  match t.pc, e with
  | .accept, .accept httpErr => some (if httpErr = .ok then accepted t.server else t)
  | .recv, .recv result =>
    some { t with pc := .test, server := handle engine result t.server, recvs := t.recvs + 1 }
  | .test, .test => some { t with pc := if t.server.fullPackage = 0 then .recv else .close }
  | .close, .close => some { t with pc := .delete, closes := t.closes + 1 }
  | .delete, .delete => some { t with pc := .accept, deletes := t.deletes + 1 }
  | _, _ => none

/-- The calls of `netconn_recv` on the connection give `results`. -/
def Answers (results : ℕ → RecvResult) (t : Task) (e : Event) : Prop :=
  ∀ result, e = .recv result → result = results t.recvs

/-- The task gets from the accepted connection back to `netconn_accept`, and has closed
and deleted the connection once. -/
def Released (server : HttpServer) (results : ℕ → RecvResult) : Prop :=
  ∃ events t, Along (step engine) (Answers results) (accepted server) events ∧
    exec (step engine) (accepted server) events = some t ∧
    t.pc = .accept ∧ t.closes = 1 ∧ t.deletes = 1

/-- The server when `n` results have been handled. -/
def served (server : HttpServer) (results : ℕ → RecvResult) : ℕ → HttpServer
  | 0 => { server with fullPackage := 0 }
  | n + 1 => handle engine (results n) (served server results n)

end Model

section Loop

variable {engine : Engine} {server : HttpServer} {results : ℕ → RecvResult}

/-- In the receive loop. -/
structure Receiving (engine : Engine) (server : HttpServer) (results : ℕ → RecvResult) (t : Task) :
    Prop where
  pc_eq : t.pc = .recv ∨ t.pc = .test
  server_eq : t.server = served engine server results t.recvs

theorem step_receiving {t t' : Task} {e : Event}
    (hnever : ∀ n, (served engine server results n).fullPackage = 0)
    (h : Receiving engine server results t) (hans : Answers results t e)
    (hstep : step engine t e = some t') : Receiving engine server results t' := by
  obtain ⟨pc, server', recvs, closes, deletes⟩ := t
  obtain ⟨hpc, hserver⟩ := h
  dsimp only at hpc hserver
  subst hserver
  rcases hpc with rfl | rfl
  · cases e with
    | recv result =>
      obtain rfl := hans result rfl
      cases hstep
      exact ⟨.inr rfl, rfl⟩
    | accept | test | close | delete => cases hstep
  · cases e with
    | test =>
      cases hstep
      exact ⟨.inl (if_pos (hnever recvs)), rfl⟩
    | accept | recv | close | delete => cases hstep

theorem answers_of_ne {t : Task} {e : Event} (h : ∀ result, e ≠ .recv result) :
    Answers results t e := fun result hresult => absurd hresult (h result)

/-- A call of `netconn_recv`, and calls of other functions. -/
theorem along_recv {t : Task} {n : ℕ} {events : List Event} (hrecvs : t.recvs = n)
    (h : ∀ e ∈ events, ∀ result, e ≠ .recv result) :
    Along (step engine) (Answers results) t (.recv (results n) :: events) := by
  refine ⟨fun result hresult => ?_, fun t' _ => ?_⟩
  · cases hresult
    rw [hrecvs]
  · exact along_of_forall t' fun e he _ => answers_of_ne (h e he)

/-- `n` rounds of the loop. -/
def rounds (results : ℕ → RecvResult) (n : ℕ) : List Event :=
  (List.range n).flatMap fun k => [.recv (results k), .test]

theorem rounds_succ (n : ℕ) : rounds results (n + 1) = rounds results n ++ [.recv (results n), .test] := by
  rw [rounds, List.range_succ, List.flatMap_append, List.flatMap_singleton, rounds]

/-- The task in round `n` of the loop. -/
def looping (engine : Engine) (server : HttpServer) (results : ℕ → RecvResult) (n : ℕ) : Task where
  pc := .recv
  server := served engine server results n
  recvs := n

/-- Without a full package the loop goes on. -/
theorem rounds_run {n : ℕ} (hnone : ∀ k ≤ n, (served engine server results k).fullPackage = 0) :
    exec (step engine) (accepted server) (rounds results n) = some (looping engine server results n) ∧
      Along (step engine) (Answers results) (accepted server) (rounds results n) := by
  induction n with
  | zero => exact ⟨rfl, trivial⟩
  | succ n ih =>
    obtain ⟨hrun, halong⟩ := ih fun k hk => hnone k (Nat.le_succ_of_le hk)
    have hround : exec (step engine) (looping engine server results n) [.recv (results n), .test] =
        some (looping engine server results (n + 1)) := by
      refine exec_cons.2 ⟨_, rfl, exec_cons.2 ⟨_, ?_, rfl⟩⟩
      exact congrArg (fun pc => some { looping engine server results (n + 1) with pc := pc })
        (if_pos (hnone (n + 1) (Nat.le_refl _)))
    rw [rounds_succ, exec_append, along_append hrun]
    exact ⟨⟨_, hrun, hround⟩, halong, along_recv rfl (by simp)⟩

/-- With a full package the connection is closed and deleted. -/
theorem full_package_run {t : Task} (hpc : t.pc = .test) (hfull : t.server.fullPackage ≠ 0) :
    exec (step engine) t [.test, .close, .delete] =
      some { t with pc := .accept, closes := t.closes + 1, deletes := t.deletes + 1 } := by
  obtain ⟨pc, server, recvs, closes, deletes⟩ := t
  cases hpc
  refine exec_cons.2 ⟨⟨.close, server, recvs, closes, deletes⟩, ?_, rfl⟩
  exact congrArg (fun pc => some (⟨pc, server, recvs, closes, deletes⟩ : Task)) (if_neg hfull)

end Loop

/-- A connection is released when the engine sets the flag, and not otherwise. -/
theorem released_iff (engine : Engine) (server : HttpServer) (results : ℕ → RecvResult) :
    Released engine server results ↔ ∃ n, (served engine server results n).fullPackage ≠ 0 := by
  constructor
  · rintro ⟨events, t, halong, hrun, hpc, -, -⟩
    by_contra hnone
    have hnever := fun n => not_not.1 (not_exists.1 hnone n)
    have hloop := exec_inv (fun t e t' hI hG hs => step_receiving hnever hI hG hs)
      ⟨.inl rfl, rfl⟩ halong hrun
    rcases hloop.pc_eq with hrecv | htest
    · rw [hpc] at hrecv
      cases hrecv
    · rw [hpc] at htest
      cases htest
  · intro hfull
    classical
    have hmin := fun k hk => not_not.1 (Nat.find_min hfull (m := k) hk)
    have hset := Nat.find_spec hfull
    match hn : Nat.find hfull with
    | 0 =>
      rw [hn] at hset
      exact absurd rfl hset
    | n + 1 =>
      rw [hn] at hset hmin
      obtain ⟨hrun, halong⟩ := rounds_run fun k hk => hmin k (Nat.lt_succ_of_le hk)
      have hend : exec (step engine) ⟨.test, served engine server results (n + 1), n + 1, 0, 0⟩
          [.test, .close, .delete] = some _ := full_package_run rfl hset
      have hlast : exec (step engine) (looping engine server results n)
          [.recv (results n), .test, .close, .delete] = some _ := exec_cons.2 ⟨_, rfl, hend⟩
      exact ⟨rounds results n ++ [.recv (results n), .test, .close, .delete], _,
        (along_append hrun).2 ⟨halong, along_recv rfl (by simp)⟩,
        exec_append.2 ⟨_, hrun, hlast⟩, rfl, rfl, rfl⟩

/-- With errors from result `n` on, the flag must have been set before. -/
theorem released_iff_of_persists {engine : Engine} {server : HttpServer} {results : ℕ → RecvResult}
    {n : ℕ} (herr : ∀ k ≥ n, (results k).httpErr ≠ .ok) :
    Released engine server results ↔ ∃ k ≤ n, (served engine server results k).fullPackage ≠ 0 := by
  have hconst : ∀ j, served engine server results (n + j) = served engine server results n := by
    intro j
    induction j with
    | zero => rfl
    | succ j ih =>
      rw [← Nat.add_assoc, served, handle, if_neg (herr _ (Nat.le_add_right n j)), ih]
  rw [released_iff]
  constructor
  · rintro ⟨k, hset⟩
    rcases Nat.le_total k n with hle | hle
    · exact ⟨k, hle, hset⟩
    · obtain ⟨j, rfl⟩ := Nat.exists_eq_add_of_le hle
      rw [hconst] at hset
      exact ⟨n, Nat.le_refl n, hset⟩
  · rintro ⟨k, -, hset⟩
    exact ⟨k, hset⟩

/-- The engine of the repository does not touch the flag. -/
theorem served_fullPackage (server : HttpServer) (results : ℕ → RecvResult) (n : ℕ) :
    (served httpServerEngine server results n).fullPackage = 0 := by
  induction n with
  | zero => rfl
  | succ n ih =>
    rw [served, handle]
    split
    · exact ih
    · exact ih

/-- **A connection is never released**, whatever is received on it. -/
theorem never_released (server : HttpServer) (results : ℕ → RecvResult) :
    ¬ Released httpServerEngine server results := by
  rw [released_iff]
  rintro ⟨n, hset⟩
  exact hset (served_fullPackage server results n)

/-- The peer has closed the connection. -/
theorem closed_not_released : ¬ ∀ (server : HttpServer) (results : ℕ → RecvResult),
    (∃ n, ∀ k ≥ n, (results k).httpErr ≠ .ok) → Released httpServerEngine server results := by
  intro hall
  obtain ⟨n, hset⟩ := (released_iff ..).1 <|
    hall ⟨0, 0, fun _ => 0⟩ (fun _ => ⟨.clsd, []⟩) ⟨0, fun k _ => nofun⟩
  exact hset (served_fullPackage _ _ n)

end Stm32Handler.Web
