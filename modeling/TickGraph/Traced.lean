import TickGraph.Notice
import TickGraph.World

namespace TickGraph

inductive Event where
  | lookup (tag : Int)
  | read (tag : Int)
  | notice (n : Notice)
deriving Inhabited

def Event.lookup? : Event → Option Int
  | .lookup tag => some tag
  | _ => none

def Event.read? : Event → Option Int
  | .read tag => some tag
  | _ => none

def Event.notice? : Event → Option Notice
  | .notice n => some n
  | _ => none

structure Traced (ε α : Type) where
  events : List Event
  outcome : Except ε α

namespace Traced

variable {ε δ α β : Type}

def lookups (run : Traced ε α) : List Int :=
  run.events.filterMap Event.lookup?

def reads (run : Traced ε α) : List Int :=
  run.events.filterMap Event.read?

def notices (run : Traced ε α) : List Notice :=
  run.events.filterMap Event.notice?

/-- A computation without events. -/
def ofExcept (outcome : Except ε α) : Traced ε α :=
  ⟨[], outcome⟩

def emit (event : Event) : Traced ε Unit :=
  ⟨[event], .ok ()⟩

def bind (run : Traced ε α) (next : α → Traced ε β) : Traced ε β :=
  match run.outcome with
  | .error e => ⟨run.events, .error e⟩
  | .ok a =>
    let rest := next a
    ⟨run.events ++ rest.events, rest.outcome⟩

instance : Monad (Traced ε) where
  pure a := ofExcept (.ok a)
  bind := bind

instance : LawfulMonad (Traced ε) := LawfulMonad.mk' (Traced ε)
  (fun run => by
    obtain ⟨events, outcome⟩ := run
    cases outcome with
    | error e => rfl
    | ok a => exact congrArg (fun all => Traced.mk all (Except.ok a)) (List.append_nil events))
  (fun _ _ => rfl)
  (fun run next last => by
    obtain ⟨events, outcome⟩ := run
    cases outcome with
    | error e => rfl
    | ok a =>
      cases step : (next a).outcome with
      | error e => simp [Bind.bind, bind, step]
      | ok b => simp [Bind.bind, bind, step])

/-- What follows a success adds its events behind those that are there. -/
theorem bind_of_ok {run : Traced ε α} {a : α} (next : α → Traced ε β)
    (success : run.outcome = .ok a) :
    (run >>= next) = ⟨run.events ++ (next a).events, (next a).outcome⟩ := by
  simp only [Bind.bind, bind, success]

/-- After an error nothing follows. -/
theorem bind_of_error {run : Traced ε α} {e : ε} (next : α → Traced ε β)
    (failure : run.outcome = .error e) : (run >>= next) = ⟨run.events, .error e⟩ := by
  simp only [Bind.bind, bind, failure]

@[simp] theorem ok_bind (events : List Event) (a : α) (next : α → Traced ε β) :
    ((⟨events, .ok a⟩ : Traced ε α) >>= next) =
      ⟨events ++ (next a).events, (next a).outcome⟩ := rfl

theorem pure_eq (a : α) : (pure a : Traced ε α) = ⟨[], .ok a⟩ := rfl

def mapError (f : ε → δ) (run : Traced ε α) : Traced δ α :=
  ⟨run.events, run.outcome.mapError f⟩

end Traced

/-- Looks a tag up. Without a lookup nothing is found and nothing is consulted. -/
def World.find {H ε : Type} (world : World H) (tag : Int) : Traced ε (Option H) :=
  match world.lookup with
  | none => pure none
  | some lookup =>
    match lookup tag with
    | .missing => ⟨[.lookup tag], .ok none⟩
    | .valueless => ⟨[.lookup tag, .notice (.valueless tag)], .ok none⟩
    | .handle h => ⟨[.lookup tag], .ok (some h)⟩

/-- Reads the handle that was found under a tag. -/
def World.readScalar {H : Type} (world : World H) (tag : Int) (handle : H) :
    Traced OutOfRange Float :=
  ⟨[.read tag], Number.scalar (world.read handle)⟩

/-- Looks a tag up and reads what it finds; zero if there is nothing. -/
def World.resolveScalar {H : Type} (world : World H) (tag : Int) : Traced OutOfRange Float := do
  match ← world.find tag with
  | none => pure 0
  | some handle => world.readScalar tag handle

end TickGraph
