import Dialogue.CommandLine.Play
import Dialogue.Proofs.Story.Telling

namespace Dialogue

variable {α β : Type}

theorem Console.bind_done (c : Console α) : c.bind done = c := by
  induction c with
  | done x | exhausted => rfl
  | print text next ih | complain text next ih => exact congrArg _ (funext ih)
  | readLine next ih => exact congrArg _ (funext ih)
  | readFile path next ih | isPresent path next ih => exact congrArg _ (funext ih)
  | writeFile path bytes next ih => exact congrArg _ (funext ih)

theorem Console.bind_bind {γ : Type} (c : Console α) (f : α → Console β) (g : β → Console γ) :
    (c.bind f).bind g = c.bind fun x => (f x).bind g := by
  induction c with
  | done x | exhausted => rfl
  | print text next ih | complain text next ih => exact congrArg _ (funext ih)
  | readLine next ih => exact congrArg _ (funext ih)
  | readFile path next ih | isPresent path next ih => exact congrArg _ (funext ih)
  | writeFile path bytes next ih => exact congrArg _ (funext ih)

instance : LawfulMonad Console :=
  .mk' Console Console.bind_done (fun _ _ => rfl) Console.bind_bind

namespace Terminal

theorem perform_bind (c : Console α) (f : α → Console β) (t : Terminal) :
    perform (c >>= f) t = (perform c t).bind fun r => perform (f r.1) r.2 := by
  change perform (c.bind f) t = _
  induction c generalizing t with
  | done x | exhausted => rfl
  | print text next ih | complain text next ih => exact ih () _
  | readLine next ih => exact ih _ _
  | readFile path next ih | isPresent path next ih => exact ih _ t
  | writeFile path bytes next ih =>
    rw [Console.bind, perform, perform]
    cases t.files.write path bytes <;> exact ih _ _

def text (lines : List String) : String := String.join (lines.map (· ++ "\n"))

theorem text_append (lines more : List String) : text (lines ++ more) = text lines ++ text more := by
  simp [text, String.join_append]

theorem text_cons (line : String) (lines : List String) :
    text (line :: lines) = line ++ "\n" ++ text lines := by
  simp [text]

theorem perform_printLines (lines : List String) (t : Terminal) :
    perform (Console.printLines lines) t =
      some ((), { t with output := t.output ++ text lines }) := by
  induction lines generalizing t with
  | nil => simp [Console.printLines, perform, text]
  | cons line lines ih =>
    rw [Console.printLines, perform_bind, Console.printLine, perform, perform, Option.bind_some, ih,
      text_cons]
    simp [String.append_assoc]

theorem perform_complainLines (lines : List String) (t : Terminal) :
    perform (Console.complainLines lines) t =
      some ((), { t with complaints := t.complaints ++ text lines }) := by
  induction lines generalizing t with
  | nil => simp [Console.complainLines, perform, text]
  | cons line lines ih =>
    rw [Console.complainLines, perform_bind, Console.complainLine, perform, perform,
      Option.bind_some, ih, text_cons]
    simp [String.append_assoc]

end Terminal

namespace Play

def on (p : Play α) (w : World (Story Log)) (t : Terminal) :
    Option ((Except Failure α × World (Story Log)) × Terminal) :=
  Terminal.perform (p.run.run w) t

variable {w w' : World (Story Log)} {t : Terminal}

theorem on_bind (p : Play α) (f : α → Play β) (w : World (Story Log)) (t : Terminal) :
    (p >>= f).on w t = (p.on w t).bind fun
      | ((.ok a, w), t) => (f a).on w t
      | ((.error e, w), t) => some ((.error e, w), t) := by
  change Terminal.perform (Bind.bind (p.run.run w) _) t = _
  rw [Terminal.perform_bind]
  congr 1
  funext r
  obtain ⟨⟨_ | _, _⟩, _⟩ := r <;> rfl

theorem on_onConsole (c : Console α) (w : World (Story Log)) (t : Terminal) :
    (onConsole c).on w t = (Terminal.perform c t).map fun r => ((.ok r.1, w), r.2) := by
  have hrun : (onConsole c).run.run w =
      ((c >>= fun a => pure (a, w)) >>= fun r => pure (Except.ok r.1, r.2) : Console _) := rfl
  rw [on, hrun, Terminal.perform_bind, Terminal.perform_bind]
  cases Terminal.perform c t <;> rfl

theorem on_ofExcept (r : Except StoryError α) (w : World (Story Log)) (t : Terminal) :
    (ofExcept r).on w t = some ((r.mapError .ofStory, w), t) := rfl

theorem on_attempt (telling : Telling Log α) (w : World (Story Log)) (t : Terminal) :
    (attempt telling).on w t = (telling.run.run w).map fun (r, w) =>
      ((.ok r, { w with host := { w.host with host := [] } }),
        { t with complaints := t.complaints ++ Terminal.text w.host.host.reverse }) := by
  unfold attempt
  dsimp only [on, ExceptT.run_mk, StateT.run]
  rcases ExceptT.run telling w with _ | ⟨r, w'⟩
  · rfl
  · rw [Terminal.perform_bind, Terminal.perform_complainLines]
    rfl

end Play

end Dialogue
