import StackLang.Event
import StackLang.Fault
import StackLang.Token.Stream

/-!
# Readings

Reading tokens by the grammar reports events as it goes and ends with a result or a
fault. A fault does not take back the events before it: they were recognised, and
whoever follows them may have found something wrong with them first.
-/

namespace StackLang

structure Reading (α : Type) where
  events : List (Located Event)
  outcome : Except (Located Fault) α

namespace Reading

variable {α β : Type}

def done (a : α) : Reading α := ⟨[], .ok a⟩

def fail (pos : Position) (f : Fault) : Reading α := ⟨[], .error ⟨pos, f⟩⟩

/-- Reports an event. -/
def report (pos : Position) (e : Event) : Reading Unit := ⟨[⟨pos, e⟩], .ok ()⟩

def andThen (x : Reading α) (f : α → Reading β) : Reading β :=
  match x.outcome with
  | .ok a =>
    let y := f a
    ⟨x.events ++ y.events, y.outcome⟩
  | .error e => ⟨x.events, .error e⟩

instance : Monad Reading where
  pure := done
  bind := andThen

theorem pure_eq (a : α) : (pure a : Reading α) = ⟨[], .ok a⟩ := rfl

theorem bind_ok (es : List (Located Event)) (a : α) (f : α → Reading β) :
    (⟨es, .ok a⟩ : Reading α) >>= f = ⟨es ++ (f a).events, (f a).outcome⟩ := rfl

theorem bind_error (es : List (Located Event)) (e : Located Fault) (f : α → Reading β) :
    (⟨es, .error e⟩ : Reading α) >>= f = ⟨es, .error e⟩ := rfl

instance : LawfulMonad Reading :=
  LawfulMonad.mk' _
    (fun x => by
      rcases x with ⟨es, e | a⟩ <;> simp [Functor.map, andThen, done])
    (fun a f => by simp [bind, andThen, pure, done])
    (fun x f g => by
      rcases x with ⟨es, e | a⟩
      · rfl
      · simp only [bind, andThen]
        rcases f a with ⟨fs, e | b⟩ <;> simp)

end Reading

namespace Grammar

/-- Takes tokens off the front of a stream and leaves the rest. -/
abbrev Reader := TokenStream → Reading TokenStream

/-- The next token; an invalid one is a fault as soon as it is looked at. -/
def peek (s : TokenStream) : Reading Token :=
  match s.head.kind with
  | .error e => .fail s.head.pos (.lexical e)
  | _ => .done s.head

/-- The next token and the stream behind it. -/
def advance (s : TokenStream) : Reading (Token × TokenStream) := do
  let t ← peek s
  return (t, s.tail)

/-- The next token, which has to be of the given kind, and the stream behind it. -/
def expect (kind : TokenKind) (s : TokenStream) : Reading (Token × TokenStream) := do
  let t ← peek s
  if t.kind = kind then return (t, s.tail)
  else .fail t.pos (.grammar (.unexpected kind t.kind))

end Grammar

end StackLang
