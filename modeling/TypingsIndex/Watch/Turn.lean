import TypingsIndex.Settings.Basic
import TypingsIndex.Surroundings
import TypingsIndex.Watch.Event

/-!
# Turns

A turn of a session computes a value and has effects on the world outside, in an order that matters to those who see
them. Readings count as effects because they can be seen as well; what a reading gave is part of its record. A turn is a
pure value, so that nothing can happen that is not in its list.
-/

set_option autoImplicit false

namespace TypingsIndex

/-! ## Effects -/

/-- What a turn does to the world outside. -/
inductive Effect where
  /-- A file was read, with this outcome. -/
  | read (file : Path) (reading : Reading)
  /-- An event is told to those who follow the watch. -/
  | emit (event : Event)
  /-- The watch on the declaration root is pointed at a directory. -/
  | watch (root : Path)
  /-- A catalog is put where everybody can look it up. -/
  | publishCatalog (catalog : Catalog)
  /-- Settings are put where everybody can look them up. -/
  | publishSettings (settings : Settings)
  /-- From here on no request is taken. -/
  | close
  deriving Inhabited

namespace Effect

/-- The event that an effect tells. -/
def event? : Effect → Option Event
  | .emit event => some event
  | _ => none

/-- The file that was read. -/
def file? : Effect → Option Path
  | .read file _ => some file
  | _ => none

/-- The directory that the watch on the root is pointed at. -/
def watched? : Effect → Option Path
  | .watch root => some root
  | _ => none

/-- The effects up to the first reading that broke down, that one included, and what it said; or all of
them if none did. -/
def untilCrash : List Effect → List Effect × Option String
  | [] => ([], none)
  | .read file (.crashed message) :: _ => ([.read file (.crashed message)], some message)
  | effect :: rest => (effect :: (untilCrash rest).1, (untilCrash rest).2)

end Effect

/-! ## What everybody can look up

The catalog and the settings that were published last. Readers only ever see one of these whole values, never one that
a turn is still working on. -/

/-- The catalog and the settings that can be looked up. -/
structure Published where
  catalog : Catalog
  settings : Settings
  deriving Inhabited

namespace Published

/-- What can be looked up after an effect. -/
def step (published : Published) : Effect → Published
  | .publishCatalog catalog => { published with catalog := catalog }
  | .publishSettings settings => { published with settings := settings }
  | _ => published

/-- What can be looked up after effects. -/
def after (published : Published) (effects : List Effect) : Published :=
  effects.foldl step published

end Published

/-! ## A value with effects -/

/-- A value and the effects on the way to it. -/
structure Turn (α : Type) where
  value : α
  /-- In the order in which they happen. -/
  effects : List Effect
  deriving Inhabited

namespace Turn

/-- Turns follow one another: the effects of the next one come behind those of the first. -/
instance : Monad Turn where
  pure value := ⟨value, []⟩
  bind turn next := ⟨(next turn.value).value, turn.effects ++ (next turn.value).effects⟩

section

variable {α β : Type}

/-- A turn that does nothing has the value that it was given. -/
@[simp] theorem value_pure (value : α) : (pure value : Turn α).value = value := rfl

/-- A turn that does nothing has no effects. -/
@[simp] theorem effects_pure (value : α) : (pure value : Turn α).effects = [] := rfl

/-- A turn after another has the value that it makes of the value of the first. -/
@[simp] theorem value_bind (turn : Turn α) (next : α → Turn β) :
    (turn >>= next).value = (next turn.value).value := rfl

/-- A turn after another adds its effects behind those of the first. -/
@[simp] theorem effects_bind (turn : Turn α) (next : α → Turn β) :
    (turn >>= next).effects = turn.effects ++ (next turn.value).effects := rfl

/-- A function of the value of a turn changes the value. -/
@[simp] theorem value_map (f : α → β) (turn : Turn α) : (f <$> turn).value = f turn.value := rfl

/-- A function of the value of a turn leaves the effects alone. -/
@[simp] theorem effects_map (f : α → β) (turn : Turn α) : (f <$> turn).effects = turn.effects := by
  change turn.effects ++ [] = turn.effects
  simp

end

/-- It does not matter how turns that follow one another are grouped. -/
instance : LawfulMonad Turn :=
  LawfulMonad.mk' Turn
    (fun turn => by
      change (⟨turn.value, turn.effects ++ []⟩ : Turn _) = turn
      simp)
    (fun _ _ => rfl)
    (fun turn f g => by
      change (⟨_, (turn.effects ++ _) ++ _⟩ : Turn _) = ⟨_, turn.effects ++ (_ ++ _)⟩
      simp)

/-- Do one thing. -/
def perform (effect : Effect) : Turn Unit :=
  ⟨(), [effect]⟩

/-- Do several things in order. -/
def performAll (effects : List Effect) : Turn Unit :=
  ⟨(), effects⟩

/-- Tell an event. -/
def emit (event : Event) : Turn Unit :=
  perform (.emit event)

/-- Tell of a failure that is no single declaration file's. -/
def fault (failure : Failure) : Turn Unit :=
  emit (.fault failure.message)

/-- Tell of a failure, as that of the file that it is attributed to if there is one. -/
def report (failure : Failure) : Turn Unit :=
  match failure.file? with
  | some file => emit (.moduleFailed file.text failure.message)
  | none => fault failure

end Turn

end TypingsIndex
