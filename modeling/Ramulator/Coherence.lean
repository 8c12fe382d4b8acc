/-
  Ramulator.Coherence

  Reads after writes in the controller.

  A read that is enqueued while a write to the same place waits must not
  overtake it.  `enqueue` has a shortcut for that: a read that finds its address
  in `writeq` is served from there.  It compares byte addresses, while the DRAM
  works on address vectors, and all bytes of a transaction have the same vector.
  So a read of another byte of the transaction is not served by the shortcut,
  and as reads go first it gets its data before the write does
  (`read_overtakes_write`).  Where equal vectors come with equal addresses the
  shortcut serves every such read (`read_after_write`).
-/

import Ramulator.Generic.Controller
import Ramulator.Hmc.Custody
import Ramulator.Hmc.Memory
import Ramulator.Hmc.Protocol

namespace Ramulator

open Outcome List
open Request (ident)

/-- The shortcut serves the read `r`: it goes to `pending`, not to `readq`. -/
def Forwarded (clk : Int) (readq pending readq' pending' : List Request) (r : Request) : Prop :=
  readq' = readq ∧ pending' = pending ++ [{ r with arrive := clk, depart := clk + 1 }]

/-- As long as not all column commands of the write `w` are issued, none of the
    read `r` is. -/
def Behind (readq writeq : List Request) (r w : Request) : Prop :=
  (∃ w' ∈ writeq, w'.ident = w.ident) →
    ∃ r' ∈ readq, r'.ident = r.ident ∧ r'.burstCount = r.burstCount

def ByAddress (reqs : List Request) : Prop :=
  ∀ r ∈ reqs, ∀ w ∈ reqs, r.type = .read → w.type = .write → r.addrVec = w.addrVec →
    r.addr = w.addr

instance (reqs : List Request) : Decidable (ByAddress reqs) :=
  inferInstanceAs (Decidable (∀ r ∈ reqs, ∀ w ∈ reqs, _))

def WritesFrom (reqs writeq : List Request) : Prop :=
  ∀ w ∈ writeq, ∃ w₀ ∈ reqs, w₀.type = .write ∧ w.ident = w₀.ident

variable {reqs writeq writeq' : List Request} {r w : Request}

namespace WritesFrom

theorem sub (h : WritesFrom reqs writeq)
    (hsub : ∀ w' ∈ writeq', ∃ w ∈ writeq, w'.ident = w.ident) : WritesFrom reqs writeq' := by
  intro w' hw'
  obtain ⟨w, hw, hident⟩ := hsub w' hw'
  obtain ⟨w₀, hw₀, htype, hident₀⟩ := h w hw
  exact ⟨w₀, hw₀, htype, hident.trans hident₀⟩

theorem mono {reqs' : List Request} (h : WritesFrom reqs writeq) (hsub : ∀ r ∈ reqs, r ∈ reqs') :
    WritesFrom reqs' writeq := by
  intro w hw
  obtain ⟨w₀, hw₀, hrest⟩ := h w hw
  exact ⟨w₀, hsub w₀ hw₀, hrest⟩

/-- A request comes, and if it is a write it may be enqueued. -/
theorem append (h : WritesFrom reqs writeq) (hcases : writeq' = writeq ∨
      ∃ w, r.type = .write ∧ w.ident = r.ident ∧ writeq' = writeq ++ [w]) :
    WritesFrom (reqs ++ [r]) writeq' := by
  have hold : WritesFrom (reqs ++ [r]) writeq :=
    h.mono (fun r hr => mem_append_left _ hr)
  rcases hcases with rfl | ⟨w, htype, hident, rfl⟩
  · exact hold
  · exact forall_mem_concat hold ⟨r, mem_append_right _ mem_cons_self, htype, hident⟩

theorem addr_mem (h : WritesFrom reqs writeq) (haddr : ByAddress (reqs ++ [r]))
    (hread : r.type = .read) (hw : w ∈ writeq) (hvec : w.addrVec = r.addrVec) :
    r.addr = w.addr := by
  obtain ⟨w₀, hw₀, htype, hident⟩ := h w hw
  rw [Request.addr_eq_of_ident hident]
  exact haddr r (mem_append_right _ mem_cons_self) w₀ (mem_append_left _ hw₀) hread
    htype (hvec.symm.trans (Request.addrVec_eq_of_ident hident))

end WritesFrom

/-! ## The controller of a vault -/

namespace Controller

variable {cfg : ControllerConfig} {vault : Int} {c c' : Controller} {req req' : Request}
  {type : RequestType} {i : Nat}

def Input.requests : List Input → List Request
  | [] => []
  | .receive packet :: rest => packet.req :: requests rest
  | .tick _ :: rest => requests rest
  | .takeResponse :: rest => requests rest

theorem Input.requests_append (xs ys : List Input) :
    Input.requests (xs ++ ys) = Input.requests xs ++ Input.requests ys := by
  induction xs with
  | nil => rfl
  | cons x xs ih =>
    cases x with
    | receive packet => exact congrArg (packet.req :: ·) ih
    | tick junk => exact ih
    | takeResponse => exact ih

/-- The writes in the queue of `c'` are those of `c`, or some of them. -/
def WritesKept (c c' : Controller) : Prop :=
  ∀ w' ∈ c'.writeq, ∃ w ∈ c.writeq, w'.ident = w.ident

theorem WritesKept.of_eq (h : c'.writeq = c.writeq) : WritesKept c c' := by
  intro w' hw'
  rw [h] at hw'
  exact ⟨w', hw', rfl⟩

theorem WritesKept.trans {c₁ c₂ c₃ : Controller} (h : WritesKept c₁ c₂) (h' : WritesKept c₂ c₃) :
    WritesKept c₁ c₃ := by
  intro w' hw'
  obtain ⟨w, hw, hident⟩ := h' w' hw'
  obtain ⟨w₀, hw₀, hident₀⟩ := h w hw
  exact ⟨w₀, hw₀, hident.trans hident₀⟩

theorem WritesKept.set (hi : (c.getQueue type)[i]? = some req) (hident : req'.ident = req.ident) :
    WritesKept c (c.setQueue type ((c.getQueue type).set i req')) := by
  cases type with
  | write =>
    intro w' hw'
    rcases mem_or_eq_of_mem_set hw' with hw' | rfl
    · exact ⟨w', hw', rfl⟩
    · exact ⟨req, mem_of_getElem? hi, hident⟩
  | read | refresh | powerdown | selfrefresh | extension | instruction =>
    exact WritesKept.of_eq rfl

theorem WritesKept.erase (c : Controller) (type : RequestType) (i : Nat) :
    WritesKept c (c.setQueue type ((c.getQueue type).eraseIdx i)) := by
  cases type with
  | write =>
    intro w' hw'
    exact ⟨w', mem_of_mem_eraseIdx hw', rfl⟩
  | read | refresh | powerdown | selfrefresh | extension | instruction =>
    exact WritesKept.of_eq rfl

theorem WritesKept.leaveQueue (hi : (c.getQueue type)[i]? = some req)
    (hident : req'.ident = req.ident) : WritesKept c (c.leaveQueue type i req') := by
  unfold Controller.leaveQueue
  split
  · exact WritesKept.erase c type i
  · exact WritesKept.set hi hident

theorem issueCmd_writes {c₀ : Controller} {junk : Int} (h : WritesKept c₀ c) (cmd : HMC.Command)
    (v : AddrVec) : Yields (c.issueCmd cfg junk cmd v) (WritesKept c₀) := by
  refine (issueCmd_ends cfg c junk cmd v).yields ?_
  rintro _ ⟨channel, rowtable, rfl, -⟩
  exact h

theorem writes_rule (cfg : ControllerConfig) (junk : Int) (c₀ : Controller) :
    IssueRule cfg junk (WritesKept c₀) (WritesKept c₀) (fun _ => True) where
  idle _ h := h
  first c type i req h hi _ := by
    refine (firstCommand_ends cfg c junk hi).yields ?_
    rintro _ ⟨channel, -, rfl⟩
    have hset : WritesKept c (c.setQueue type ((c.getQueue type).set i (started req))) :=
      .set hi rfl
    exact h.trans hset
  issue c _ _ h _ := issueCmd_writes h _ _
  victim c _ _ h _ _ _ := issueCmd_writes h _ _
  finish c type i req h hi _ _ := by
    refine (finishBurst_ends cfg c junk type i req).yields ?_
    rintro _ ⟨req₁, c₁, hcounted, rfl⟩
    obtain ⟨hident, hqueues, -⟩ := hcounted.queues
    have hwrites : WritesKept c c₁ := WritesKept.of_eq (hqueues .write)
    rw [← hqueues] at hi
    exact (h.trans hwrites).trans (WritesKept.leaveQueue hi hident)

theorem tick_writes (cfg : ControllerConfig) (junk : Int) (c : Controller) :
    Yields (c.tick cfg junk) (fun out => WritesKept c out.2) := by
  refine tick_rule (fun _ => writes_rule cfg junk c) ?_ (fun _ _ _ _ h => h) (fun _ _ h => h)
    trivial fun _ _ _ h _ => h
  refine (serveCompleted_ends cfg _ junk).yields ?_
  rintro ⟨done, c₁⟩ hserved
  apply WritesKept.of_eq
  cases hserved with
  | idle | callback | stuck | response => rfl

theorem writeq_push (c : Controller) (type : RequestType) (r : Request) :
    (c.setQueue type (c.getQueue type ++ [r])).writeq =
      if type = .write then c.writeq ++ [r] else c.writeq := by
  cases type <;> rfl

theorem enqueue_forwards (hread : req.type = .read) (hfound : ∃ w ∈ c.writeq, req.addr = w.addr)
    (h : c.enqueue cfg req = some c') : c' = { c with
      pending := c.pending ++ [{ req with arrive := c.clk, depart := c.clk + 1 }] } := by
  have hany : c.writeq.any (fun wreq => decide (req.addr = wreq.addr)) = true := by
    obtain ⟨w, hw, haddr⟩ := hfound
    exact any_eq_true.mpr ⟨w, hw, decide_eq_true haddr⟩
  unfold enqueue at h
  split at h
  · cases h
  · simp only [hread, setQueue, getQueue, true_and, hany, if_true, Option.some.injEq,
      dropLast_concat] at h
    rw [← h, ← hread]

theorem receive_writes {packet packet' : Packet} {accepted : Bool}
    (h : c.receive cfg packet = .ok (accepted, packet', c')) :
    (c'.writeq = c.writeq ∨ (packet.req.type = .write ∧
      c'.writeq = c.writeq ++ [{ withBurst cfg packet.req with arrive := c.clk }])) ∧
    (accepted = true → packet.req.type = .read → (∃ w ∈ c.writeq, packet.req.addr = w.addr) →
      Forwarded c.clk c.readq c.pending c'.readq c'.pending (withBurst cfg packet.req)) := by
  obtain ⟨-, hpacket, hcases⟩ := (receive_ends cfg c packet).result h
  dsimp only at hpacket hcases
  rcases hcases with ⟨-, henq⟩ | ⟨hrefused, -, rfl⟩
  · refine ⟨?_, fun _ hread hfound => ?_⟩
    · obtain ⟨-, rfl | ⟨-, -, rfl⟩⟩ := enqueue_cases henq
      · rw [writeq_push]
        split
        · next hwrite => exact Or.inr ⟨hwrite, rfl⟩
        · exact Or.inl rfl
      · exact Or.inl rfl
    · have hread' : (withBurst cfg packet.req).type = .read := hread
      have hfound' : ∃ w ∈ (c.buffered packet').writeq, (withBurst cfg packet.req).addr = w.addr :=
        hfound
      rw [enqueue_forwards hread' hfound' henq]
      exact ⟨rfl, rfl⟩
  · refine ⟨Or.inl rfl, fun haccepted => ?_⟩
    rw [hrefused] at haccepted
    cases haccepted

theorem run_writesFrom (cfg : ControllerConfig) (vault : Int) (inputs : List Input) :
    Yields (run cfg vault inputs) (fun c => WritesFrom (Input.requests inputs) c.writeq) := by
  induction inputs using List.reverseRecOn with
  | nil => exact fun w hw => by cases hw
  | append_singleton inputs input ih =>
    unfold run
    rw [foldlM_append, Input.requests_append]
    apply Ends.bind ih
    intro c hc
    rw [foldlM_cons]
    apply Ends.bind (Q := fun c' => WritesFrom
      (Input.requests inputs ++ Input.requests [input]) c'.writeq)
    · cases input with
      | receive packet =>
        apply Ends.bind (Ends.ran _)
        rintro ⟨accepted, packet', c'⟩ hreceive
        apply hc.append ((receive_writes hreceive).1.imp id _)
        rintro ⟨hwrite, heq⟩
        exact ⟨{ withBurst cfg packet.req with arrive := c.clk }, hwrite, rfl, heq⟩
      | tick junk =>
        apply Ends.bind (tick_writes cfg junk c)
        rintro ⟨done, c'⟩ hkept
        show WritesFrom (Input.requests inputs ++ []) c'.writeq
        rw [append_nil]
        exact hc.sub hkept
      | takeResponse =>
        show WritesFrom (Input.requests inputs ++ []) c.writeq
        rw [append_nil]
        exact hc
    · intro c' hc'
      exact hc'

end Controller

/-! ## The controller of any standard -/

namespace Generic.Controller

variable {c c' : Generic.Controller} {req : Request} {readLatency : Int}

/-- The requests that came, those of the refresh scheduler too. -/
def requests : List Input → List Request
  | [] => []
  | .enqueue req :: rest => req :: requests rest
  | .tick d :: rest => d.refreshes ++ requests rest

theorem requests_append (xs ys : List Input) :
    requests (xs ++ ys) = requests xs ++ requests ys := by
  induction xs with
  | nil => rfl
  | cons x xs ih =>
    cases x with
    | enqueue req => exact congrArg (req :: ·) ih
    | tick d =>
      show d.refreshes ++ requests (xs ++ ys) = d.refreshes ++ requests xs ++ requests ys
      rw [ih, append_assoc]

theorem writeq_push (c : Generic.Controller) (type : RequestType) (r : Request) :
    (c.setQueue type (c.getQueue type ++ [r])).writeq =
      if type = .write then c.writeq ++ [r] else c.writeq := by
  cases type <;> rfl

theorem enqueue_writes (h : c.enqueue req = some c') : c'.writeq = c.writeq ∨ (req.type = .write ∧
      c'.writeq = c.writeq ++ [{ req with arrive := c.clk }]) := by
  have hpush := writeq_push c req.type { req with arrive := c.clk }
  unfold enqueue at h
  split at h
  · cases h
  · dsimp only at h
    split at h
    · next hforward =>
      cases h
      rw [if_neg (by rw [hforward.1]; decide)] at hpush
      exact Or.inl hpush
    · cases h
      split at hpush
      · next hwrite => exact Or.inr ⟨hwrite, hpush⟩
      · exact Or.inl hpush

theorem enqueue_forwards (hread : req.type = .read) (hfound : ∃ w ∈ c.writeq, req.addr = w.addr)
    (h : c.enqueue req = some c') : Forwarded c.clk c.readq c.pending c'.readq c'.pending req := by
  have hany : c.writeq.any (fun wreq => decide (req.addr = wreq.addr)) = true := by
    obtain ⟨w, hw, haddr⟩ := hfound
    exact any_eq_true.mpr ⟨w, hw, decide_eq_true haddr⟩
  unfold enqueue at h
  split at h
  · cases h
  · simp only [hread, setQueue, getQueue, true_and, hany, if_true, Option.some.injEq,
      dropLast_concat] at h
    rw [← h, ← hread]
    exact ⟨rfl, rfl⟩

theorem refreshes_writes (refreshes : List Request) (h : WritesFrom reqs c.writeq) :
    Yields (refreshes.foldlM refresh c) (fun c' => WritesFrom (reqs ++ refreshes) c'.writeq) := by
  induction refreshes generalizing c reqs with
  | nil =>
    rw [append_nil]
    exact h
  | cons req rest ih =>
    rw [foldlM_cons]
    apply Ends.bind (Q := fun c' => WritesFrom (reqs ++ [req]) c'.writeq)
    · unfold refresh
      split
      · trivial
      · next c' henq =>
        apply h.append ((enqueue_writes henq).imp id _)
        rintro ⟨hwrite, heq⟩
        exact ⟨{ req with arrive := c.clk }, hwrite, rfl, heq⟩
    · intro c' hc'
      have hrest := ih hc'
      rwa [append_assoc, singleton_append] at hrest

theorem schedule_writes (d : Decision) (h : WritesFrom reqs c.writeq) :
    WritesFrom reqs (c.schedule readLatency d).writeq := by
  apply h.sub
  -- a queue in which the request has been marked
  have hset : ∀ {type : RequestType} {i : Nat} {req : Request},
      (c.getQueue type)[i]? = some req → ∀ w' ∈ (c.setQueue type ((c.getQueue type).set i
        { req with isFirstCommand := false })).writeq, ∃ w ∈ c.writeq, w'.ident = w.ident := by
    intro type i req hi w' hw'
    cases type with
    | write =>
      rcases mem_or_eq_of_mem_set hw' with hw' | rfl
      · exact ⟨w', hw', rfl⟩
      · exact ⟨req, mem_of_getElem? hi, rfl⟩
    | read | refresh | powerdown | selfrefresh | extension | instruction => exact ⟨w', hw', rfl⟩
  unfold schedule
  dsimp only
  split
  · exact fun w hw => ⟨w, hw, rfl⟩
  · next i _ =>
    split
    · exact fun w hw => ⟨w, hw, rfl⟩
    · next req hi =>
      split
      · intro w' hw'
        apply hset hi
        -- erasing keeps what is left
        unfold finish at hw'
        dsimp only at hw'
        cases hsel : c.selectQueue with
        | write =>
          rw [hsel] at hw'
          split at hw'
          · exact mem_of_mem_eraseIdx hw'
          · exact mem_of_mem_eraseIdx hw'
        | read | refresh | powerdown | selfrefresh | extension | instruction =>
          rw [hsel] at hw'
          split at hw'
          · exact hw'
          · exact hw'
      · exact hset hi

theorem updateWriteMode_writeq (c : Generic.Controller) : c.updateWriteMode.writeq = c.writeq := by
  unfold updateWriteMode
  split
  · split
    · rfl
    · rfl
  · split
    · rfl
    · rfl

theorem serveCompleted_writeq (c : Generic.Controller) : c.serveCompleted.writeq = c.writeq := by
  unfold serveCompleted
  split
  · rfl
  · split
    · rfl
    · rfl

theorem run_writesFrom (readLatency : Int) (inputs : List Input) :
    Yields (run readLatency inputs) (fun c => WritesFrom (requests inputs) c.writeq) := by
  induction inputs using List.reverseRecOn with
  | nil => exact fun w hw => by cases hw
  | append_singleton inputs input ih =>
    unfold run
    rw [foldlM_append, requests_append]
    apply Ends.bind ih
    intro c hc
    rw [foldlM_cons]
    apply Ends.bind (Q := fun c' => WritesFrom (requests inputs ++ requests [input]) c'.writeq)
    · cases input with
      | enqueue req =>
        show WritesFrom (requests inputs ++ [req]) ((c.enqueue req).getD c).writeq
        cases henq : c.enqueue req with
        | none => exact hc.append (Or.inl rfl)
        | some c' =>
          apply hc.append ((enqueue_writes henq).imp id _)
          rintro ⟨hwrite, heq⟩
          exact ⟨{ req with arrive := c.clk }, hwrite, rfl, heq⟩
      | tick d =>
        have hserved : WritesFrom (requests inputs)
            (serveCompleted { c with clk := c.clk + 1 }).writeq := by
          rw [serveCompleted_writeq]
          exact hc
        apply Ends.bind (refreshes_writes d.refreshes hserved)
        intro c' hc'
        show WritesFrom (requests inputs ++ (d.refreshes ++ [])) _
        rw [append_nil]
        apply schedule_writes
        rw [updateWriteMode_writeq]
        exact hc'
    · intro c' hc'
      exact hc'

end Generic.Controller

/-! ## The shortcut is enough where vectors tell addresses -/

/-- **Reads after writes.**  Take a read `r` that is enqueued after `before`
    while a write `w` with the same address vector is in `writeq`.  If reads and
    writes with the same vector have the same address, then `r` is served by the
    shortcut or, whatever follows, no column command of `r` is issued before
    those of `w` are.  This is so in a vault and in the controller of any
    standard. -/
theorem read_after_write (cfg : ControllerConfig) (vault readLatency : Int) :
    (∀ (before after : List Controller.Input) (packet packet' : Packet) (c c' c'' : Controller),
      Controller.run cfg vault before = .ok c → c.receive cfg packet = .ok (true, packet', c') →
      after.foldlM (Controller.apply cfg) c' = .ok c'' → packet.req.type = .read →
      ByAddress (Controller.Input.requests before ++ [packet.req]) →
      ∀ w ∈ c.writeq, w.addrVec = packet.req.addrVec →
        Forwarded c.clk c.readq c.pending c'.readq c'.pending
          (Controller.withBurst cfg packet.req) ∨
        Behind c''.readq c''.writeq (Controller.withBurst cfg packet.req) w) ∧
    (∀ (before after : List Generic.Input) (r : Request) (c c' c'' : Generic.Controller),
      Generic.Controller.run readLatency before = .ok c → c.enqueue r = some c' →
      after.foldlM (Generic.Controller.apply readLatency) c' = .ok c'' → r.type = .read →
      ByAddress (Generic.Controller.requests before ++ [r]) →
      ∀ w ∈ c.writeq, w.addrVec = r.addrVec →
        Forwarded c.clk c.readq c.pending c'.readq c'.pending r ∨
        Behind c''.readq c''.writeq r w) := by
  constructor
  · intro before after packet packet' c c' c'' hbefore hreceive _ hread haddr w hw hvec
    have hwrites := (Controller.run_writesFrom cfg vault before).result hbefore
    have hsame := hwrites.addr_mem haddr hread hw hvec
    exact Or.inl ((Controller.receive_writes hreceive).2 rfl hread ⟨w, hw, hsame⟩)
  · intro before after r c c' c'' hbefore henq _ hread haddr w hw hvec
    have hwrites := (Generic.Controller.run_writesFrom readLatency before).result hbefore
    have hsame := hwrites.addr_mem haddr hread hw hvec
    exact Or.inl (Generic.Controller.enqueue_forwards hread ⟨w, hw, hsame⟩ henq)

def gb4Memory : MemoryConfig where
  ctrl := Controller.gb4Vault .opened
  cub := fun _ => 0
  flitCycles := fun flits => flits
  lrand := fun _ => 0

/-- A write to address 0, and a read of a byte of the same transaction or of
    another address. -/
def writeZero : Request :=
  { addr := 0, addrVec := Memory.addrVec gb4Memory 0, reqid := 0, type := .write }

def readByte (addr : Nat) : Request :=
  { addr, addrVec := Memory.addrVec gb4Memory addr, reqid := 1, type := .read }

def packetOf (req : Request) : Packet :=
  Packet.mkRequest 0 0 req.reqid (if req.type = .write then 5 else 1) 0
    (if req.type = .write then .wr64 else .rd64) req

/-- The vault with the write in its queue, and what it makes of a read. -/
def vaultRead (addr : Nat) : Except Abort (Controller × Bool × Packet × Controller) := do
  let c ← Controller.run gb4Memory.ctrl 0 [.receive (packetOf writeZero)]
  let out ← c.receive gb4Memory.ctrl (packetOf (readByte addr))
  pure (c, out)

/-- A read of address 0 is served from the write to address 0. -/
theorem read_after_write_zero : (∃ c c' packet', vaultRead 0 = .ok (c, true, packet', c') ∧
      ∃ w ∈ c.writeq, w.addrVec = (readByte 0).addrVec ∧
        (Forwarded c.clk c.readq c.pending c'.readq c'.pending
            (Controller.withBurst gb4Memory.ctrl (readByte 0)) ∨
          Behind c'.readq c'.writeq (Controller.withBurst gb4Memory.ctrl (readByte 0)) w)) ∧
    ∃ c c', Generic.Controller.run 10 [.enqueue writeZero] = .ok c ∧
      c.enqueue (readByte 0) = some c' ∧ ∃ w ∈ c.writeq, w.addrVec = (readByte 0).addrVec ∧
        (Forwarded c.clk c.readq c.pending c'.readq c'.pending (readByte 0) ∨
          Behind c'.readq c'.writeq (readByte 0) w) := by
  constructor
  · have heval : (vaultRead 0).toOption.map (fun out => (out.1.writeq.map (·.addrVec), out.2.1)) =
        some ([(readByte 0).addrVec], true) := by decide +kernel
    obtain ⟨⟨c, accepted, packet', c'⟩, hread, hfields⟩ := exists_ok_of_map heval
    obtain ⟨hwriteq, haccepted⟩ := Prod.mk.inj hfields
    dsimp only at hwriteq haccepted
    subst haccepted
    obtain ⟨c₀, hrun, hrest⟩ := bind_ok.mp hread
    obtain ⟨out, hreceive, heq⟩ := bind_ok.mp hrest
    cases heq
    obtain ⟨w, hw, hvec⟩ : ∃ w ∈ c.writeq, w.addrVec = (readByte 0).addrVec :=
      exists_of_map_eq_cons hwriteq
    exact ⟨c, c', packet', hread, w, hw, hvec, (read_after_write gb4Memory.ctrl 0 10).1 _ []
      (packetOf (readByte 0)) packet' c c' c' hrun hreceive rfl rfl (by decide +kernel) w hw hvec⟩
  · refine ⟨{ writeq := [{ writeZero with arrive := 0 }] }, {
      writeq := [{ writeZero with arrive := 0 }]
      pending := [{ readByte 0 with arrive := 0, depart := 1 }] }, rfl, rfl, _,
      mem_cons_self, rfl, ?_⟩
    exact (read_after_write gb4Memory.ctrl 0 10).2 [.enqueue writeZero] [] (readByte 0) _ _ _ rfl
      rfl rfl rfl (by decide +kernel) _ mem_cons_self rfl

/-- A read of address 8, in the same transaction as the write to address 0, is
    not served by the shortcut, and gets a column command before the write gets
    one: in a vault after 18 cycles, and in the controller of any standard in
    the first cycle in which the read is ready. -/
theorem read_overtakes_write : (∃ c c' packet' c'', vaultRead 8 = .ok (c, true, packet', c') ∧
      (replicate 18 (.tick 0)).foldlM (Controller.apply gb4Memory.ctrl) c' = .ok c'' ∧
      ∃ w ∈ c.writeq, w.addrVec = (readByte 8).addrVec ∧
        ¬ Forwarded c.clk c.readq c.pending c'.readq c'.pending
          (Controller.withBurst gb4Memory.ctrl (readByte 8)) ∧
        ¬ Behind c''.readq c''.writeq (Controller.withBurst gb4Memory.ctrl (readByte 8)) w) ∧
    ∃ c c' c'', Generic.Controller.run 10 [.enqueue writeZero] = .ok c ∧
      c.enqueue (readByte 8) = some c' ∧ c'.tick 10 { head := some 0, isLast := true } = .ok c'' ∧
      ∃ w ∈ c.writeq, w.addrVec = (readByte 8).addrVec ∧
        ¬ Forwarded c.clk c.readq c.pending c'.readq c'.pending (readByte 8) ∧
        ¬ Behind c''.readq c''.writeq (readByte 8) w := by
  constructor
  · have heval : (vaultRead 8 >>= fun out =>
        (replicate 18 (.tick 0)).foldlM (Controller.apply gb4Memory.ctrl) out.2.2.2 >>=
          fun c'' => pure (out, c'')).toOption.map (fun out =>
        ((out.1.1.writeq.map (·.ident), out.1.2.1),
          (out.1.1.readq.length, out.1.2.2.2.readq.length),
          (out.2.writeq.map (·.ident), out.2.readq.map (·.burstCount)))) =
        some (([writeZero.ident], true), (0, 1), ([writeZero.ident], [1])) := by decide +kernel
    obtain ⟨⟨⟨c, accepted, packet', c'⟩, c''⟩, hrun, hfields⟩ := exists_ok_of_map heval
    obtain ⟨⟨c₁, accepted₁, packet₁, c₁'⟩, hread, hrest⟩ := bind_ok.mp hrun
    obtain ⟨c₁'', hticks, heq⟩ := bind_ok.mp hrest
    cases heq
    simp only [Prod.mk.injEq] at hfields
    obtain ⟨⟨hwriteq, rfl⟩, ⟨hreads, hreads'⟩, hwriteq'', hreadq''⟩ := hfields
    obtain ⟨w, hw, hident⟩ : ∃ w ∈ c.writeq, w.ident = writeZero.ident :=
      exists_of_map_eq_cons hwriteq
    refine ⟨c, c', packet', c'', hread, hticks, w, hw, ?_, ?_, ?_⟩
    · rw [Request.addrVec_eq_of_ident hident]
      decide +kernel
    · rintro ⟨hreadq, -⟩
      rw [hreadq, hreads] at hreads'
      cases hreads'
    · intro hbehind
      obtain ⟨w', hw', hident'⟩ : ∃ w' ∈ c''.writeq, w'.ident = writeZero.ident :=
        exists_of_map_eq_cons hwriteq''
      obtain ⟨r', hr', -, hburst⟩ := hbehind ⟨w', hw', hident'.trans hident.symm⟩
      have hone : r'.burstCount ∈ c''.readq.map (·.burstCount) := mem_map_of_mem hr'
      rw [hreadq'', mem_singleton, hburst] at hone
      revert hone
      decide +kernel
  · refine ⟨{ writeq := [{ writeZero with arrive := 0 }] }, {
      writeq := [{ writeZero with arrive := 0 }], readq := [{ readByte 8 with arrive := 0 }] }, {
      clk := 1
      writeq := [{ writeZero with arrive := 0 }]
      pending := [{ readByte 8 with arrive := 0, depart := 11, isFirstCommand := false }] },
      rfl, rfl, rfl, _, mem_cons_self, by decide +kernel, ?_, ?_⟩
    · rintro ⟨hreadq, -⟩
      cases hreadq
    · intro hbehind
      obtain ⟨r', hr', -⟩ := hbehind ⟨_, mem_cons_self, rfl⟩
      cases hr'

end Ramulator
