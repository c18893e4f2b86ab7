import ChainRelay.Network.Basic

/-! Client nodes in the network: how their sessions go on, and what may be asked of
them. -/
namespace ChainRelay.Network
open Session (Course Report Attempt.start Attempt.conclude Ending)

variable {σ : Type} (chain : ChainSource σ)

def setClient (c : Nat) (client : ClientNode) (n : Network σ) : Network σ :=
  { n with clients := n.clients.set c client }

def modifyClient (c : Nat) (f : ClientNode → ClientNode) (n : Network σ) : Network σ :=
  { n with clients := n.clients.modify c f }

def announce (c : Nat) (listeners : List Nat) (event : SessionEvent) (n : Network σ) : Network σ :=
  listeners.foldl (fun n listener => n.report (.session c listener event)) n

def carryOn (c : Nat) (client : ClientNode) (task : Task) (wire : Nat) (course : Course)
    (report : Report) (n : Network σ) : Network σ :=
  let n := report.events.foldl (fun n event => n.announce c client.listeners.ids event) n
  let others := client.tasks.filter (·.id ≠ task.id)
  let waiting (wait : Wait) : List Task :=
    client.tasks.map fun t => if t.id = task.id then { t with course, wait } else t
  let n := match course.phase with
    | .attempting _ => n.setClient c { client with tasks := waiting .due }
    | .resting _ =>
      n.setClient c { client with
        state := .disconnected
        tasks := waiting (.pausing (n.now + client.config.session.retryDelay.toNat)) }
    | .up =>
      n.setClient c { client with
        state := .active
        supervisor := if task.course.isStarted then client.supervisor else some task.id
        tasks := waiting (.live wire) }
    | .over =>
      n.setClient c { client with
        state := .disconnected
        isRunning := false
        tasks := others }
  match report.start with
  | none => n
  | some .started =>
    let n := n.report (.start c .started)
    match client.keepAlive, client.config.pingPeriod with
    | some _, some period =>
      n.modifyClient c fun client => { client with nextPing := some (n.now + period.toNat) }
    | _, _ => n
  | some failed => n.report (.start c failed)

def endAttempt (c : Nat) (client : ClientNode) (task : Task) (wire : Nat)
    (r : Except SessionError Agreed) (n : Network σ) : Network σ :=
  let (course, report) := task.course.attempted client.config.session n.peer r
  n.carryOn c client task wire course report

def setWait (c : Nat) (client : ClientNode) (task : Task) (state : SessionState) (wait : Wait)
    (n : Network σ) : Network σ :=
  n.setClient c { client with
    state
    tasks := client.tasks.map fun t => if t.id = task.id then { t with wait } else t }

def beginAttempt (c : Nat) (client : ClientNode) (task : Task) (n : Network σ) : Network σ :=
  let config := client.config.session
  match client.reach with
  | .nowhere =>
    n.setWait c client task .connecting (.connecting (n.now + config.connectTimeout.toNat))
  | .network =>
    match n.dial with
    | .error detail => n.endAttempt c client task 0 (.error (.io detail))
    | .ok (stream, n) =>
      let (wire, n) := n.addWire stream config.maxMessageLen.toNat
      match n.onWire wire fun l b => Attempt.start chain client.crew l b with
      | some (.ok (), n) =>
        n.setWait c client task .handshaking
          (.handshaking wire (n.now + config.handshakeTimeout.toNat))
      | some (.error e, n) => n.endAttempt c client task wire (.error e)
      | none => n

def concludeAttempt (c : Nat) (client : ClientNode) (task : Task) (wire : Nat) (ending : Ending)
    (n : Network σ) : Network σ :=
  match n.onWire wire fun l b =>
    Attempt.conclude chain client.config.session client.crew ending l b with
  | some (r, n) => n.endAttempt c client task wire r
  | none => n

/-- How the wait for a handshake ends, if it does. An outcome counts before anything
else. -/
def ending? (client : ClientNode) (wire limit : Nat) (n : Network σ) : Option Ending :=
  match n.board.outcome client.crew.handshake with
  | some o => some (.outcome o)
  | none =>
    if !n.isWireOpen wire then some .closed
    else if limit ≤ n.now then some .timedOut
    else none

def detach (c : Nat) (client : ClientNode) (task : Task) (wire : Nat) (n : Network σ) : Network σ :=
  let n := (n.closeWire chain wire).onBoard fun b => b.unbindAll chain client.crew.places
  let (course, report) := task.course.dropped client.config.session n.peer client.isStopping
  n.carryOn c { client with state := .disconnected } task wire course report

/-- The pause is over. A new round begins with all agents afresh. -/
def endPause (c : Nat) (client : ClientNode) (task : Task) (n : Network σ) : Network σ :=
  let (course, report) := task.course.rested client.isStopping
  let n := if course.phase = .attempting 1 then
      n.onBoard fun b => b.resetAll chain client.crew.places
    else n
  n.carryOn c client task 0 course report

def moveTask (c : Nat) (client : ClientNode) (task : Task) (n : Network σ) : Option (Network σ) :=
  match task.wait with
  | .due => some (n.beginAttempt chain c client task)
  | .connecting limit =>
    if limit ≤ n.now then
      let limit := client.config.session.connectTimeout
      some (n.endAttempt c client task 0 (.error (.connectTimeout limit)))
    else none
  | .handshaking wire limit =>
    (n.ending? client wire limit).map fun ending => n.concludeAttempt chain c client task wire ending
  | .pausing limit =>
    if client.isStopping || limit ≤ n.now then some (n.endPause chain c client task) else none
  | .live wire =>
    if client.isStopping || !n.isWireOpen wire then some (n.detach chain c client task wire) else none

def leave (c : Nat) (n : Network σ) : Network σ :=
  (n.modifyClient c fun client =>
    { client with state := .disconnected, isRunning := false }).report (.shutDown c)

/-- Let a client go on with what is not a task: a ping that is due, a shutdown whose
task has ended, those who wait for the session to close, and being dropped. -/
def moveClient (c : Nat) (client : ClientNode) (n : Network σ) : Option (Network σ) :=
  let isBusy (id : Nat) : Bool := client.tasks.any (·.id = id)
  if client.nextPing.any (· ≤ n.now) then
    let period := (client.config.pingPeriod.getD 1).toNat
    let next := client.nextPing.map (· + period)
    let n := n.setClient c { client with nextPing := next }
    match client.keepAlive with
    | some place =>
      if n.board.isBound place && !n.board.isPinging place then
        some (n.onBoard fun b => b.request chain place (.ping 0))
      else some n
    | none => some n
  else if client.leaving.any (!isBusy ·) then
    let (done, left) := client.leaving.partition (!isBusy ·)
    let n := n.setClient c { client with leaving := left }
    some (done.foldl (fun n _ => n.leave c) n)
  else if client.watchers ≠ 0 && client.state = .disconnected && !client.isRunning then
    let n := n.setClient c { client with watchers := 0 }
    some ((List.replicate client.watchers ()).foldl (fun n _ => n.report (.closed c)) n)
  else if client.isDropped && !client.isStopping && client.leaving.isEmpty && client.watchers = 0
      && client.tasks.all (·.course.isStarted) then
    some (n.setClient c { client with isStopping := true, nextPing := none })
  else none

def moveClients (n : Network σ) : Option (Network σ) :=
  n.clients.zipIdx.findSome? fun (client, c) =>
    (client.tasks.findSome? fun task => n.moveTask chain c client task) <|>
      n.moveClient chain c client

/-! ### What may be asked of a client -/

def addClient (config : NodeConfig) (reach : Reach) (agents : ClientAgents) (n : Network σ) :
    Nat × Network σ :=
  let add (x : Option AnyHandle) (b : Board σ) : Option Nat × Board σ :=
    match x with
    | none => (none, b)
    | some x => let (place, b) := b.add x; (some place, b)
  let (handshake, board) := n.board.add agents.handshake
  let (chainSync, board) := add agents.chainSync board
  let (blockFetch, board) := add agents.blockFetch board
  let (keepAlive, board) := add agents.keepAlive board
  let crew := ⟨handshake, chainSync.toList ++ blockFetch.toList ++ keepAlive.toList⟩
  (n.clients.length,
    { n with
      board
      clients := n.clients ++ [{
        config, reach, crew, chainSync, blockFetch, keepAlive
        state := .disconnected
        isStopping := false
        isRunning := false
        listeners := .empty
        tasks := []
        nextTask := 0
        supervisor := none
        leaving := []
        watchers := 0
        nextPing := none
        isDropped := false }] })

/-- Start the session. From here on no listener can be added. -/
def start (c : Nat) (n : Network σ) : Network σ :=
  match n.clients[c]? with
  | none => n
  | some client =>
    if client.isRunning then n.report (.start c (.failed .alreadyStarted))
    else
      let n := n.onBoard fun b =>
        (b.sealAll chain client.crew.places).resetAll chain client.crew.places
      n.setClient c { client with
        isRunning := true
        isStopping := false
        listeners := client.listeners.sealed
        tasks := client.tasks ++ [⟨client.nextTask, .begin, .due⟩]
        nextTask := client.nextTask + 1 }

def shutDown (c : Nat) (n : Network σ) : Network σ :=
  match n.clients[c]? with
  | none => n
  | some client =>
    let n := n.setClient c { client with
      nextPing := none
      isStopping := true
      supervisor := none
      leaving := client.leaving ++ client.supervisor.toList }
    if client.supervisor.isSome then n else n.leave c

def watch (c : Nat) (n : Network σ) : Network σ :=
  n.modifyClient c fun client => { client with watchers := client.watchers + 1 }

/-- Let go of a client. Its session stops when nobody waits for it any more. -/
def dropClient (c : Nat) (n : Network σ) : Network σ :=
  n.modifyClient c fun client => { client with isDropped := true }

def observe (c : Nat) (n : Network σ) : Network σ :=
  match n.clients[c]? with
  | none => n
  | some client =>
    let board := client.crew.places.foldl (fun b place =>
      b.modify place fun x => (x.addListener chain).2) n.board
    match client.listeners.add with
    | .ok (_, listeners) => { n with board }.setClient c { client with listeners }
    | .error _ => { n with board }

end ChainRelay.Network
