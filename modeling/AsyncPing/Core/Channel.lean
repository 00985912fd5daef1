import AsyncPing.Core.TaskWorker
import Mathlib.Data.Finset.Card

/-!
The queue with a pipe beside it by which TaskWorker, HttpServer and Logger learn
of new work. A producer pushes and then writes one byte; the handler of the
consumer, run when the pipe holds a byte, reads one byte and then pops. Each of
the four is a step of its own here, and steps of different threads come in any
order. A step on the queue is the critical section of its lock.
-/
namespace AsyncPing

structure Channel (T : Type) where
  queue : List T
  pipe : Nat

namespace Channel
variable {T : Type}

def pushHead (c : Channel T) (data : T) : Channel T := { c with queue := data :: c.queue }

/-- `write(notifyFd, "c", 1)`. -/
def notify (c : Channel T) : Channel T := { c with pipe := c.pipe + 1 }

/-- `read(recvFd, tmpBuf, 1)`. -/
def readByte (c : Channel T) : Channel T := { c with pipe := c.pipe - 1 }

/-- No value when `popTail` returns false. -/
def popTail (c : Channel T) : Option T × Channel T :=
  match Sequence.popTail c.queue with
  | none => (none, c)
  | some (ret, rest) => (some ret, { c with queue := rest })

end Channel

/-! ## The three channels -/

def TaskWorker.channel (w : TaskWorker) : Channel TaskPtr := ⟨w.taskQueue, w.notifyPipe⟩

def Master.channel (m : Master) : Channel TaskPtr := ⟨m.responseQueue, m.notifyPipe⟩

/-- The values of `LogLevel` in `Log.h`. -/
inductive LogLevel
  | error
  | warn
  | info
  | debug
  deriving DecidableEq

def LogLevel.value : LogLevel → Nat
  | error => 10
  | warn => 20
  | info => 30
  | debug => 40

/-- Addresses of LogEventBody objects. -/
abbrev LogEventPtr := Nat

structure Logger where
  logLevel : LogLevel
  logQueue : List LogEventPtr
  notifyPipe : Nat

def Logger.channel (l : Logger) : Channel LogEventPtr := ⟨l.logQueue, l.notifyPipe⟩

def Logger.pushHead (l : Logger) (body : LogEventPtr) : Logger :=
  { l with logQueue := body :: l.logQueue }

def Logger.notify (l : Logger) : Logger := { l with notifyPipe := l.notifyPipe + 1 }

/-- `Logger::log`; `body` is the address of the new LogEventBody. -/
def Logger.log (l : Logger) (level : LogLevel) (body : LogEventPtr) : Logger :=
  if level.value > l.logLevel.value then l else (l.pushHead body).notify

/-- The effect of `logEventHandler` on the logger, and the body it dumps and
deletes. -/
def Logger.logEventHandler (l : Logger) : Option LogEventPtr × Logger :=
  let l := { l with notifyPipe := l.notifyPipe - 1 }
  match Sequence.popTail l.logQueue with
  | none => (none, l)
  | some (body, rest) => (some body, { l with logQueue := rest })

theorem TaskWorker.channel_submit (w : TaskWorker) (task : TaskPtr) :
    (w.enqueueTask task).notify.channel = (w.channel.pushHead task).notify := rfl

theorem Master.channel_enqueueResponse (m : Master) (resp : TaskPtr) :
    (m.enqueueResponse resp).channel = (m.channel.pushHead resp).notify := rfl

theorem Logger.channel_log (l : Logger) {level : LogLevel} (body : LogEventPtr)
    (kept : level.value ≤ l.logLevel.value) :
    (l.log level body).channel = (l.channel.pushHead body).notify := by
  rw [log, if_neg (Nat.not_lt.mpr kept)]
  rfl

theorem Logger.channel_logEventHandler (l : Logger) :
    l.logEventHandler.1 = l.channel.readByte.popTail.1 ∧
      l.logEventHandler.2.channel = l.channel.readByte.popTail.2 := by
  simp only [logEventHandler, channel, Channel.readByte, Channel.popTail]
  cases Sequence.popTail l.logQueue with
  | none => exact ⟨rfl, rfl⟩
  | some result => exact ⟨rfl, rfl⟩

/-! ## The logger in motion

Any thread logs; the event loop of the logger runs its handler when the pipe holds a byte. -/

inductive LoggerMove
  | log (level : LogLevel) (body : LogEventPtr)
  | notified

def LoggerMove.enabled (l : Logger) : LoggerMove → Prop
  | log _ _ => True
  | notified => 0 < l.notifyPipe

def LoggerMove.serve : LoggerMove → Logger → Logger
  | log level body, l => l.log level body
  | notified, l => l.logEventHandler.2

def loggerSystem : Machine Logger LoggerMove Empty where
  start l := l.logQueue = [] ∧ l.notifyPipe = 0
  enabled l move := move.enabled l
  serve move l := .ok (move.serve l)

/-! ## Threads at work on one channel -/

/-- `producing` holds the threads between their push and their write, `hasRead`
tells whether the consumer is between its read and its pop. `popped` is history:
what each `popTail` of the handler gave, the newest first. -/
structure Traffic (Thr T : Type) where
  channel : Channel T
  producing : Finset Thr
  hasRead : Bool
  popped : List (Option T)

inductive ChannelStep (Thr T : Type)
  | push (thread : Thr) (data : T)
  | write (thread : Thr)
  | read
  | pop

namespace ChannelStep
variable {Thr T : Type} [DecidableEq Thr]

/-- The handler is run only when the pipe holds a byte. -/
def enabled (s : Traffic Thr T) : ChannelStep Thr T → Prop
  | push thread _ => thread ∉ s.producing
  | write thread => thread ∈ s.producing
  | read => s.hasRead = false ∧ 0 < s.channel.pipe
  | pop => s.hasRead = true

def serve : ChannelStep Thr T → Traffic Thr T → Traffic Thr T
  | push thread data, s =>
      { s with channel := s.channel.pushHead data, producing := insert thread s.producing }
  | write thread, s =>
      { s with channel := s.channel.notify, producing := s.producing.erase thread }
  | read, s => { s with channel := s.channel.readByte, hasRead := true }
  | pop, s =>
      { s with
        channel := s.channel.popTail.2, hasRead := false
        popped := s.channel.popTail.1 :: s.popped }

end ChannelStep

/-- Nobody is between two steps. -/
def Traffic.quiet {Thr T : Type} (c : Channel T) (popped : List (Option T)) : Traffic Thr T :=
  ⟨c, ∅, false, popped⟩

def channelSystem (Thr T : Type) [DecidableEq Thr] :
    Machine (Traffic Thr T) (ChannelStep Thr T) Empty where
  start s := s = .quiet ⟨[], 0⟩ []
  enabled s l := l.enabled s
  serve l s := .ok (l.serve s)

end AsyncPing
