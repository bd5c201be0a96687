import XrayRs.BoundedChannel
import XrayRs.Net
import XrayRs.StepSystem

/-! # The stream relay

`relay_stream` (`proxy/src/io.rs`) and `splice` (`kernel/src/pipe/copy.rs`) pump a
connection against one half of a `Link`.  Both run `conn_to_link` and
`link_to_conn` side by side under `try_join!`; `relay_stream` first sends the
bytes left over from the header, and only drains the downlink when that send
fails.  One machine models them: `splice` starts it without a leftover and
without a counter.

A step of the machine is the progress one of the loops makes between two
suspension points.  Which loop moves, how many bytes a read or a write takes,
when I/O fails and when the idle timer fires is open, so a run is any
interleaving.  `Timer::update` only moves the deadline; since the token may be
cancelled at any step it leaves no trace here.

The other half of the link belongs to somebody else, who can move its ends of
the two channels (`OpenStep.peer`).  Every step keeps the account of where each
byte is (`Accounts`) and of who holds which end (`Owns`). -/

namespace XrayRs

open BoundedChannel

/-! ## Connections and counters -/

/-- A connection split by `tokio::io::split`: what was read off it, what its peer
sends after that before closing, what was written to it, and which halves are
alive.  The connection is closed when both halves are dropped. -/
structure Conn where
  received : Bytes
  unread : Bytes
  written : Bytes
  readHalf : Bool
  writeHalf : Bool
  isShutdown : Bool
  deriving DecidableEq

namespace Conn

/-- A connection whose peer sends `bytes`. -/
def new (bytes : Bytes) : Conn := ⟨[], bytes, [], true, true, false⟩

/-- Neither closed nor shut down. -/
def OpenForWriting (c : Conn) : Prop :=
  (c.readHalf = true ∨ c.writeHalf = true) ∧ c.isShutdown = false

/-- Read `n` bytes. -/
def read (c : Conn) (n : Nat) : Conn :=
  { c with received := c.received ++ c.unread.take n, unread := c.unread.drop n }

/-- Write `bs`. -/
def write (c : Conn) (bs : Bytes) : Conn := { c with written := c.written ++ bs }

/-- Drop the read half. -/
def dropRead (c : Conn) : Conn := { c with readHalf := false }

/-- Drop the write half. -/
def dropWrite (c : Conn) : Conn := { c with writeHalf := false }

end Conn

/-- `Counter`, the two sums. -/
structure Counter where
  up : UInt64
  down : UInt64
  deriving DecidableEq

/-- `Counter::add_up`. -/
def Counter.addUp (c : Counter) (n : UInt64) : Counter := { c with up := c.up + n }

/-- `Counter::add_down`. -/
def Counter.addDown (c : Counter) (n : UInt64) : Counter := { c with down := c.down + n }

/-- `Link`: the receiver of the downlink and the sender of the uplink. -/
structure Link where
  reader : Chan Bytes
  writer : Chan Bytes
  deriving DecidableEq

/-- Drop both ends. -/
def Link.drop (l : Link) : Link := ⟨l.reader.dropRx, l.writer.dropTx⟩

/-! ## The machine -/

/-- `READ_BUF`. -/
def readBuf : Nat := 16384

/-- `idle_err`. -/
def idleErr : IoError := ⟨.timedOut, .msg "connection idle timeout"⟩

/-- Where the uplink is: `relay_stream` seeding the link with the leftover, or
left without an outbound and draining the downlink only; then `conn_to_link`,
which ends at the end of the connection or at a refused send. -/
inductive UpState
  | seeding (leftover : Bytes)
  | seedRefused (leftover : Bytes)
  | reading
  | sending (b : Bytes)
  | eof
  | refused (b : Bytes)
  deriving DecidableEq

/-- `link_to_conn` can run. -/
def UpState.Started : UpState → Prop
  | .seeding _ => False
  | _ => True

/-- `conn_to_link` is running. -/
def UpState.Running : UpState → Prop
  | .reading | .sending _ => True
  | _ => False

/-- `conn_to_link` has returned. -/
def UpState.Finished : UpState → Prop
  | .eof | .refused _ => True
  | _ => False

theorem UpState.Running.not_finished : ∀ {u : UpState}, u.Running → ¬ u.Finished
  | .reading, _ => id
  | .sending _, _ => id

/-- The uplink is over: `conn_to_link` has returned, or was never started. -/
def UpState.Over : UpState → Prop
  | .eof | .refused _ | .seedRefused _ => True
  | _ => False

theorem UpState.Finished.over : ∀ {u : UpState}, u.Finished → u.Over
  | .eof, _ => trivial
  | .refused _, _ => trivial

/-- The bytes taken in and not put on the link. -/
def UpState.held : UpState → Bytes
  | .seeding b | .seedRefused b | .sending b | .refused b => b
  | .reading | .eof => []

/-- Where `link_to_conn` is. -/
inductive DownState
  | receiving
  | writing (rest : Bytes)
  | flushing
  | finished
  deriving DecidableEq

/-- The bytes taken off the link and not written. -/
def DownState.rest : DownState → Bytes
  | .writing rest => rest
  | _ => []

/-- `write_all` with `bs` to go: no bytes, no wait. -/
def writeAll (bs : Bytes) : DownState := if bs = [] then .receiving else .writing bs

/-- A relay: the two loops, the connection, the counter, the idle token and, once
it has returned, the result. -/
structure Relay where
  up : UpState
  down : DownState
  conn : Conn
  counter : Option Counter
  cancelled : Bool
  result : Option (Except IoError Unit)

namespace Relay

/-- `relay_stream`, up to its first suspension point. -/
def relayStream (conn : Conn) (counter : Option Counter) (leftover : Bytes) : Relay :=
  if leftover = [] then ⟨.reading, .receiving, conn, counter, false, none⟩
  else
    ⟨.seeding leftover, .receiving, conn, counter.map (·.addUp (.ofNat leftover.length)), false, none⟩

/-- `splice`, up to its first suspension point. -/
def splice (conn : Conn) : Relay := ⟨.reading, .receiving, conn, none, false, none⟩

theorem splice_eq_relayStream (conn : Conn) : splice conn = relayStream conn none [] := rfl

/-- `read_buf` took `n` bytes. -/
def onRead (r : Relay) (n : Nat) : Relay :=
  { r with
    up := .sending (r.conn.unread.take n)
    conn := r.conn.read n
    counter := r.counter.map (·.addUp (.ofNat n)) }

/-- `rx.recv` gave the chunk `b`. -/
def onRecv (r : Relay) (b : Bytes) : Relay :=
  { r with down := writeAll b, counter := r.counter.map (·.addDown (.ofNat b.length)) }

/-- The connection took `n` bytes of `rest`. -/
def onWrite (r : Relay) (rest : Bytes) (n : Nat) : Relay :=
  { r with down := writeAll (rest.drop n), conn := r.conn.write (rest.take n) }

/-- `conn_to_link` returns `Ok` as `up` says, dropping its half; `try_join!`
returns when the other loop has. -/
def upDone (r : Relay) (up : UpState) : Relay :=
  { r with
    up := up
    conn := r.conn.dropRead
    result := if r.down = .finished then some (.ok ()) else none }

/-- `link_to_conn` returns `Ok`, dropping its half. -/
def downDone (r : Relay) : Relay := { r with down := .finished, conn := r.conn.dropWrite }

/-- An error: both loops are dropped where they stand. -/
def fail (r : Relay) (e : IoError) : Relay :=
  { r with conn := r.conn.dropRead.dropWrite, result := some (.error e) }

end Relay

/-- The moves of a relay. -/
inductive Act
  | send
  | sendFail
  | read (n : Nat)
  | readEof
  | readError
  | upTimeout
  | recv
  | recvEof
  | downTimeout
  | write (n : Nat)
  | writeError
  | flush
  | cancel
  deriving DecidableEq

/-- Neither an error, nor a timeout, nor a failed send. -/
def Act.Clean : Act → Prop
  | .sendFail | .readError | .upTimeout | .downTimeout | .writeError | .cancel => False
  | _ => True

/-- One step of a relay on its half of the link. -/
inductive RelayStep (r : Relay) (l : Link) : Act → Relay → Link → Prop
  | seed {b : Bytes} (hrun : r.result = none) (hup : r.up = .seeding b) (hroom : l.writer.CanSend) :
      RelayStep r l .send { r with up := .reading } { l with writer := l.writer.push b }
  | seedFail {b : Bytes} (hrun : r.result = none) (hup : r.up = .seeding b)
      (hgone : l.writer.Refuses) :
      RelayStep r l .sendFail { r with up := .seedRefused b } l
  | read (n : Nat) (hrun : r.result = none) (hup : r.up = .reading) (hlive : r.cancelled = false)
      (hpos : 0 < n) (hbuf : n ≤ readBuf) (hlen : n ≤ r.conn.unread.length) :
      RelayStep r l (.read n) (r.onRead n) l
  | readEof (hrun : r.result = none) (hup : r.up = .reading) (hlive : r.cancelled = false)
      (hend : r.conn.unread = []) :
      RelayStep r l .readEof (r.upDone .eof) { l with writer := l.writer.dropTx }
  | readError (e : IoError) (hrun : r.result = none) (hup : r.up = .reading)
      (hlive : r.cancelled = false) :
      RelayStep r l .readError (r.fail e) l.drop
  | upTimeout (hrun : r.result = none) (hup : r.up = .reading) (hidle : r.cancelled = true) :
      RelayStep r l .upTimeout (r.fail idleErr) l.drop
  | send {b : Bytes} (hrun : r.result = none) (hup : r.up = .sending b) (hroom : l.writer.CanSend) :
      RelayStep r l .send { r with up := .reading } { l with writer := l.writer.push b }
  | sendFail {b : Bytes} (hrun : r.result = none) (hup : r.up = .sending b)
      (hgone : l.writer.Refuses) :
      RelayStep r l .sendFail (r.upDone (.refused b)) { l with writer := l.writer.dropTx }
  | recv {b : Bytes} {q : List Bytes} (hrun : r.result = none) (hstart : r.up.Started)
      (hdown : r.down = .receiving) (hlive : r.cancelled = false) (hchunk : l.reader.CanRecv b q) :
      RelayStep r l .recv (r.onRecv b) { l with reader := l.reader.pop b q }
  | recvEof (hrun : r.result = none) (hstart : r.up.Started) (hdown : r.down = .receiving)
      (hlive : r.cancelled = false) (hend : l.reader.Ended) :
      RelayStep r l .recvEof { r with down := .flushing } l
  | downTimeout (hrun : r.result = none) (hstart : r.up.Started) (hdown : r.down = .receiving)
      (hidle : r.cancelled = true) :
      RelayStep r l .downTimeout (r.fail idleErr) l.drop
  | write {rest : Bytes} (n : Nat) (hrun : r.result = none) (hdown : r.down = .writing rest)
      (hpos : 0 < n) (hlen : n ≤ rest.length) :
      RelayStep r l (.write n) (r.onWrite rest n) l
  | writeError {rest : Bytes} (e : IoError) (hrun : r.result = none)
      (hdown : r.down = .writing rest) :
      RelayStep r l .writeError (r.fail e) l.drop
  -- the result of the flush is ignored; `try_join!` still waits for `conn_to_link`
  | flushFirst (hrun : r.result = none) (hdown : r.down = .flushing) (hup : r.up.Running) :
      RelayStep r l .flush r.downDone { l with reader := l.reader.dropRx }
  | flushLast (hrun : r.result = none) (hdown : r.down = .flushing) (hup : r.up.Finished) :
      RelayStep r l .flush { r.downDone with result := some (.ok ()) }
        { l with reader := l.reader.dropRx }
  -- the drain path: `relay_stream` itself returns, with all it still holds
  | flushDrain {b : Bytes} (hrun : r.result = none) (hdown : r.down = .flushing)
      (hup : r.up = .seedRefused b) :
      RelayStep r l .flush
        { r.downDone with conn := r.conn.dropRead.dropWrite, result := some (.ok ()) } l.drop
  | cancel (hrun : r.result = none) :
      RelayStep r l .cancel { r with cancelled := true } l

/-- A relay with its half of the link. -/
structure Side where
  relay : Relay
  link : Link

/-- The moves of a side: the relay's, and those of whoever holds the other half. -/
inductive OpenAct
  | relay (a : Act)
  | peer
  deriving DecidableEq

/-- A relay against an arbitrary peer, who receives from its writer and sends to
its reader. -/
inductive OpenStep : Side → OpenAct → Side → Prop
  | relay {r r' : Relay} {l l' : Link} {a : Act} :
      RelayStep r l a r' l' → OpenStep ⟨r, l⟩ (.relay a) ⟨r', l'⟩
  | peer {r : Relay} {l l' : Link} :
      TxMove l.reader l'.reader → RxMove l.writer l'.writer → OpenStep ⟨r, l⟩ .peer ⟨r, l'⟩

/-! ## What a step does to the channels -/

/-- A relay only sends on its writer and only receives from its reader. -/
theorem RelayStep.moves {r r' : Relay} {l l' : Link} {a : Act} (h : RelayStep r l a r' l') :
    TxMove l.writer l'.writer ∧ RxMove l.reader l'.reader := by
  cases h with
  | seed _ _ hroom | send _ _ hroom => exact ⟨.push _ hroom, .stay⟩
  | recv _ _ _ _ hchunk => exact ⟨.stay, .pop hchunk⟩
  | readEof | sendFail => exact ⟨.drop, .stay⟩
  | flushFirst | flushLast => exact ⟨.stay, .drop⟩
  | readError | upTimeout | downTimeout | writeError | flushDrain => exact ⟨.drop, .drop⟩
  | seedFail | read | recvEof | write | cancel => exact ⟨.stay, .stay⟩

/-! ## The account of the bytes -/

/-- The counter after the relay took in `up` bytes from above and `down` bytes
from the link. -/
def Counter.grown (c : Counter) (up down : Nat) : Counter :=
  ⟨c.up + .ofNat up, c.down + .ofNat down⟩

/-- **Where every byte is.**  `leftover` and `bytes` are the uplink a relay
started with, `counter` is its counter at the start. -/
structure Accounts (leftover bytes : Bytes) (counter : Option Counter) (s : Side) : Prop where
  /-- What is on the link and what is held make up what was taken in. -/
  up_bytes : s.link.writer.sent.flatten ++ s.relay.up.held = leftover ++ s.relay.conn.received
  /-- What is written and what is being written make up what came off the link. -/
  down_bytes : s.relay.conn.written ++ s.relay.down.rest = s.link.reader.taken.flatten
  input : s.relay.conn.received ++ s.relay.conn.unread = bytes
  counted : s.relay.counter = counter.map (·.grown (leftover ++ s.relay.conn.received).length
    s.link.reader.taken.flatten.length)
  up_eof : s.relay.up = .eof → s.relay.conn.unread = []
  down_end : s.relay.down = .flushing ∨ s.relay.down = .finished → s.link.reader.Ended
  writing_left : ∀ rest, s.relay.down = .writing rest → rest ≠ []

theorem writeAll_cases (bs : Bytes) :
    bs = [] ∧ writeAll bs = .receiving ∨ bs ≠ [] ∧ writeAll bs = .writing bs := by
  by_cases h : bs = []
  · exact .inl ⟨h, if_pos h⟩
  · exact .inr ⟨h, if_neg h⟩

@[simp] theorem rest_writeAll (bs : Bytes) : (writeAll bs).rest = bs := by
  rcases writeAll_cases bs with ⟨rfl, h⟩ | ⟨-, h⟩ <;> rw [h] <;> rfl

theorem writeAll_ne (bs : Bytes) : ¬ (writeAll bs = .flushing ∨ writeAll bs = .finished) := by
  rcases writeAll_cases bs with ⟨-, h⟩ | ⟨-, h⟩ <;> rw [h] <;> simp

theorem ne_nil_of_writeAll {bs rest : Bytes} (h : writeAll bs = .writing rest) : rest ≠ [] := by
  rcases writeAll_cases bs with ⟨-, hnil⟩ | ⟨hne, hcons⟩
  · rw [hnil] at h
    cases h
  · rw [hcons] at h
    cases h
    exact hne

theorem Counter.grown_addUp (c : Counter) (up down n : Nat) :
    (c.grown up down).addUp (.ofNat n) = c.grown (up + n) down := by
  simp [Counter.grown, Counter.addUp, UInt64.ofNat_add, UInt64.add_assoc]

theorem Counter.grown_addDown (c : Counter) (up down n : Nat) :
    (c.grown up down).addDown (.ofNat n) = c.grown up (down + n) := by
  simp [Counter.grown, Counter.addDown, UInt64.ofNat_add, UInt64.add_assoc]

theorem Counter.map_addUp {counter start : Option Counter} {up down : Nat}
    (h : counter = start.map (·.grown up down)) (n : Nat) :
    counter.map (·.addUp (.ofNat n)) = start.map (·.grown (up + n) down) := by
  rw [h, Option.map_map]
  congr 1
  funext c
  exact c.grown_addUp up down n

theorem Counter.map_addDown {counter start : Option Counter} {up down : Nat}
    (h : counter = start.map (·.grown up down)) (n : Nat) :
    counter.map (·.addDown (.ofNat n)) = start.map (·.grown up (down + n)) := by
  rw [h, Option.map_map]
  congr 1
  funext c
  exact c.grown_addDown up down n

section Accounts

variable {leftover bytes : Bytes} {counter : Option Counter} {r r' : Relay} {l l' : Link} {a : Act}

theorem RelayStep.accounts (h : RelayStep r l a r' l')
    (hs : Accounts leftover bytes counter ⟨r, l⟩) : Accounts leftover bytes counter ⟨r', l'⟩ := by
  obtain ⟨hup, hdown, hinput, hcount, heof, hend, hleft⟩ := hs
  simp only at hup hdown hinput hcount heof hend hleft
  cases h with
  | seed _ hstate _ | send _ hstate _ =>
    rw [hstate] at hup
    refine ⟨?_, hdown, hinput, hcount, by simp, hend, hleft⟩
    simpa [UpState.held] using hup
  | seedFail _ hstate =>
    rw [hstate] at hup
    exact ⟨hup, hdown, hinput, hcount, by simp, hend, hleft⟩
  | read n _ hstate _ _ _ hlen =>
    rw [hstate] at hup
    refine ⟨?_, hdown, ?_, ?_, by simp [Relay.onRead], hend, hleft⟩
    · simp only [UpState.held, List.append_nil] at hup
      simp [Relay.onRead, Conn.read, UpState.held, hup]
    · rw [← hinput]
      simp [Relay.onRead, Conn.read]
    · rw [Relay.onRead, Counter.map_addUp hcount]
      simp [Conn.read, Nat.min_eq_left hlen, Nat.add_assoc]
  | readEof _ hstate _ hunread =>
    rw [hstate] at hup
    exact ⟨hup, hdown, hinput, hcount, fun _ => hunread, hend, hleft⟩
  | sendFail _ hstate =>
    rw [hstate] at hup
    exact ⟨hup, hdown, hinput, hcount, by simp [Relay.upDone], hend, hleft⟩
  | @recv b q _ _ hstate _ hchunk =>
    rw [hstate] at hdown
    refine ⟨hup, ?_, hinput, ?_, heof, fun h => absurd h (writeAll_ne b),
      fun _ => ne_nil_of_writeAll⟩
    · simp only [DownState.rest, List.append_nil] at hdown
      simp [Relay.onRecv, Chan.pop, hdown]
    · rw [Relay.onRecv, Counter.map_addDown hcount]
      simp [Chan.pop]
  | recvEof _ _ hstate _ hended =>
    rw [hstate] at hdown
    exact ⟨hup, hdown, hinput, hcount, heof, fun _ => hended, by simp⟩
  | @write rest n _ hstate _ hlen =>
    rw [hstate] at hdown
    refine ⟨hup, ?_, hinput, hcount, heof, fun h => absurd h (writeAll_ne _),
      fun _ => ne_nil_of_writeAll⟩
    rw [← hdown]
    show r.conn.written ++ rest.take n ++ (writeAll (rest.drop n)).rest = r.conn.written ++ rest
    rw [rest_writeAll, List.append_assoc, List.take_append_drop]
  | flushFirst _ hstate | flushLast _ hstate | flushDrain _ hstate =>
    rw [hstate] at hdown
    exact ⟨hup, hdown, hinput, hcount, heof, fun _ => hend (.inl hstate), by simp [Relay.downDone]⟩
  | readError | upTimeout | downTimeout | writeError | cancel =>
    exact ⟨hup, hdown, hinput, hcount, heof, hend, hleft⟩

/-- The peer's moves touch nothing the account is about. -/
theorem Accounts.peer (hs : Accounts leftover bytes counter ⟨r, l⟩)
    (htx : TxMove l.reader l'.reader) (hrx : RxMove l.writer l'.writer) :
    Accounts leftover bytes counter ⟨r, l'⟩ := by
  obtain ⟨hup, hdown, hinput, hcount, heof, hend, hleft⟩ := hs
  refine ⟨?_, ?_, hinput, ?_, heof, fun h => htx.ended (hend h), hleft⟩
  · rw [hrx.sent_eq]
    exact hup
  · rw [htx.taken_eq]
    exact hdown
  · rw [htx.taken_eq]
    exact hcount

end Accounts

/-! ## Who holds what -/

/-- **Who holds which half.**  A loop holds its half of the connection and its end
of the link until it returns, and a returned relay holds nothing. -/
structure Owns (s : Side) : Prop where
  up_holds : s.relay.result = none → ¬ s.relay.up.Finished →
    s.relay.conn.readHalf = true ∧ s.link.writer.txAlive = true
  up_drops : s.relay.up.Finished → s.relay.conn.readHalf = false ∧ s.link.writer.txAlive = false
  down_holds : s.relay.result = none → s.relay.down ≠ .finished →
    s.relay.conn.writeHalf = true ∧ s.link.reader.rxAlive = true
  down_drops : s.relay.down = .finished → s.relay.conn.writeHalf = false
  closed : s.relay.result ≠ none → s.relay.conn.readHalf = false ∧ s.relay.conn.writeHalf = false
  ok_done : s.relay.result = some (.ok ()) → s.relay.down = .finished ∧ s.relay.up.Over
  joined : s.relay.up.Finished → s.relay.down = .finished → s.relay.result ≠ none
  not_shutdown : s.relay.conn.isShutdown = false

section Owns

variable {r r' : Relay} {l l' : Link} {a : Act}

theorem RelayStep.owns (h : RelayStep r l a r' l') (hs : Owns ⟨r, l⟩) : Owns ⟨r', l'⟩ := by
  obtain ⟨hupHolds, hupDrops, hdownHolds, hdownDrops, hclosed, hok, hjoined, hshut⟩ := hs
  simp only at hupHolds hupDrops hdownHolds hdownDrops hclosed hok hjoined hshut
  cases h with
  | seed hrun hup _ | send hrun hup _ | seedFail hrun hup _ =>
    have hheld := hupHolds hrun (by rw [hup]; exact id)
    exact ⟨fun _ _ => hheld, nofun, hdownHolds, hdownDrops, hclosed,
      fun h => absurd (hrun.symm.trans h) nofun, nofun, hshut⟩
  | read n hrun hup =>
    have hheld := hupHolds hrun (by rw [hup]; exact id)
    exact ⟨fun _ _ => hheld, nofun, hdownHolds, hdownDrops, hclosed,
      fun h => absurd (hrun.symm.trans h) nofun, nofun, hshut⟩
  | readEof hrun hup | sendFail hrun hup =>
    refine ⟨fun _ h => absurd trivial h, fun _ => ⟨rfl, rfl⟩, fun _ h => hdownHolds hrun h,
      hdownDrops, fun h => ⟨rfl, hdownDrops ?_⟩, fun h => ⟨?_, trivial⟩, fun _ hd h => ?_, hshut⟩
    · by_contra hd
      exact h (if_neg hd)
    · by_contra hd
      exact absurd ((if_neg hd).symm.trans h) nofun
    · exact absurd ((if_pos hd).symm.trans h) nofun
  | recv hrun _ hdown =>
    have hheld := hdownHolds hrun (by rw [hdown]; nofun)
    exact ⟨hupHolds, hupDrops, fun _ _ => hheld, fun h => absurd (.inr h) (writeAll_ne _), hclosed,
      fun h => absurd (hrun.symm.trans h) nofun, fun _ h => absurd (.inr h) (writeAll_ne _), hshut⟩
  | recvEof hrun _ hdown =>
    have hheld := hdownHolds hrun (by rw [hdown]; nofun)
    exact ⟨hupHolds, hupDrops, fun _ _ => hheld, nofun, hclosed,
      fun h => absurd (hrun.symm.trans h) nofun, nofun, hshut⟩
  | write n hrun hdown =>
    have hheld := hdownHolds hrun (by rw [hdown]; nofun)
    exact ⟨hupHolds, hupDrops, fun _ _ => hheld, fun h => absurd (.inr h) (writeAll_ne _), hclosed,
      fun h => absurd (hrun.symm.trans h) nofun, fun _ h => absurd (.inr h) (writeAll_ne _), hshut⟩
  | flushFirst hrun hdown hup =>
    exact ⟨hupHolds, hupDrops, fun _ h => absurd rfl h, fun _ => rfl, fun h => absurd hrun h,
      fun h => absurd (hrun.symm.trans h) nofun, fun h => absurd h hup.not_finished, hshut⟩
  | flushLast hrun hdown hup =>
    exact ⟨nofun, hupDrops, nofun, fun _ => rfl, fun _ => ⟨(hupDrops hup).1, rfl⟩,
      fun _ => ⟨rfl, hup.over⟩, nofun, hshut⟩
  | flushDrain hrun hdown hup =>
    refine ⟨nofun, fun _ => ⟨rfl, rfl⟩, nofun, fun _ => rfl, fun _ => ⟨rfl, rfl⟩,
      fun _ => ⟨rfl, ?_⟩, nofun, hshut⟩
    show r.up.Over
    rw [hup]
    trivial
  | readError | upTimeout | downTimeout | writeError =>
    exact ⟨nofun, fun h => ⟨rfl, rfl⟩, nofun, fun _ => rfl, fun _ => ⟨rfl, rfl⟩, nofun, nofun, hshut⟩
  | cancel =>
    exact ⟨hupHolds, hupDrops, hdownHolds, hdownDrops, hclosed, hok, hjoined, hshut⟩

/-- The peer holds the other ends. -/
theorem Owns.peer (hs : Owns ⟨r, l⟩) (htx : TxMove l.reader l'.reader)
    (hrx : RxMove l.writer l'.writer) : Owns ⟨r, l'⟩ := by
  obtain ⟨hupHolds, hupDrops, hdownHolds, hdownDrops, hclosed, hok, hjoined, hshut⟩ := hs
  refine ⟨?_, ?_, ?_, hdownDrops, hclosed, hok, hjoined, hshut⟩
  · rw [hrx.txAlive_eq]
    exact hupHolds
  · rw [hrx.txAlive_eq]
    exact hupDrops
  · rw [htx.rxAlive_eq]
    exact hdownHolds

end Owns

/-! ## Runs against an arbitrary peer -/

theorem OpenStep.accounts {leftover bytes : Bytes} {counter : Option Counter} {s t : Side}
    {a : OpenAct} (hs : Accounts leftover bytes counter s) (h : OpenStep s a t) :
    Accounts leftover bytes counter t := by
  cases h with
  | relay hstep => exact hstep.accounts hs
  | peer htx hrx => exact hs.peer htx hrx

theorem OpenStep.owns {s t : Side} {a : OpenAct} (hs : Owns s) (h : OpenStep s a t) : Owns t := by
  cases h with
  | relay hstep => exact hstep.owns hs
  | peer htx hrx => exact hs.peer htx hrx

/-- `pipe(capacity)`, as the half of one side: both channels are new. -/
def Link.new (capacity : Nat) : Link := ⟨.new _ capacity, .new _ capacity⟩

theorem relayStream_accounts (bytes leftover : Bytes) (counter : Option Counter) (capacity : Nat) :
    Accounts leftover bytes counter
      ⟨.relayStream (.new bytes) counter leftover, .new capacity⟩ := by
  by_cases hleft : leftover = []
  · subst hleft
    refine ⟨rfl, rfl, rfl, ?_, nofun, nofun, nofun⟩
    cases counter with
    | none => rfl
    | some c => simp [Relay.relayStream, Counter.grown, Link.new, Chan.new, Conn.new]
  · rw [Relay.relayStream, if_neg hleft]
    refine ⟨by simp [Link.new, UpState.held, Conn.new], rfl, rfl, ?_, nofun, nofun, nofun⟩
    cases counter with
    | none => rfl
    | some c => simp [Counter.grown, Counter.addUp, Link.new, Chan.new, Conn.new]

theorem relayStream_owns (bytes leftover : Bytes) (counter : Option Counter) (capacity : Nat) :
    Owns ⟨.relayStream (.new bytes) counter leftover, .new capacity⟩ := by
  by_cases hleft : leftover = []
  · rw [Relay.relayStream, if_pos hleft]
    exact ⟨fun _ _ => ⟨rfl, rfl⟩, nofun, fun _ _ => ⟨rfl, rfl⟩, nofun, fun h => absurd rfl h, nofun,
      nofun, rfl⟩
  · rw [Relay.relayStream, if_neg hleft]
    exact ⟨fun _ _ => ⟨rfl, rfl⟩, nofun, fun _ _ => ⟨rfl, rfl⟩, nofun, fun h => absurd rfl h, nofun,
      nofun, rfl⟩

end XrayRs
