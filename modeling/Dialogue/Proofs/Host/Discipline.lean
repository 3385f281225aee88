import Dialogue.Proofs.Host.Conduct

/-!
Host code that keeps to a discipline and hands out only host code that does. However operations are
nested, they then keep to it as well.
-/

namespace Dialogue

variable {ε : Type}

/-- What host code may do: the operations that it may perform and the changes of the host that it may
make. Callbacks that are trusted need not keep to that. -/
structure Discipline (ε : Type) where
  performs : Operation ε → Prop
  changes : ε → ε → Prop
  trusts : (Handle → Event → Reaction ε) → Prop

mutual

/-- The operation hands out only host code that keeps to the discipline. -/
def Operation.Grants (d : Discipline ε) : Operation ε → Prop
  | .setFunction _ _ _ body => ∀ args, (body args).Obeys d
  | .create _ callbacks => d.trusts callbacks ∨ ∀ h e, (callbacks h e).Obeys d
  | _ => True

def Reaction.Obeys (d : Discipline ε) : Reaction ε → Prop
  | .done _ | .panic _ => True
  | .update f next => (∀ e, d.changes e (f e)) ∧ next.Obeys d
  | .inspect next => ∀ e, (next e).Obeys d
  | .call op next => (d.performs op ∧ op.Grants d) ∧ ∀ r, (next r).Obeys d

end

namespace Discipline

variable {d : Discipline ε} {H : ε → ε → Prop} {L : Operation ε → Prop}

def Permits (d : Discipline ε) (op : Operation ε) : Prop := d.performs op ∧ op.Grants d

theorem within_of_obeys (hH : ∀ {e e'}, d.changes e e' → H e e') :
    ∀ {r : Reaction ε}, r.Obeys d → r.Within d.Permits H
  | .done _, _ => trivial
  | .panic _, _ => trivial
  | .update _ _, hr => ⟨fun e => hH (hr.1 e), within_of_obeys hH hr.2⟩
  | .inspect _, hr => fun e => within_of_obeys hH (hr e)
  | .call _ _, hr => ⟨hr.1, fun reply => within_of_obeys hH (hr.2 reply)⟩

/-- Where the discipline is kept, the host stays within `H` of where it began. -/
structure Bounds (d : Discipline ε) (H : ε → ε → Prop) : Prop where
  refl : ∀ e, H e e
  trans : ∀ {e e' e''}, H e e' → H e' e'' → H e e''
  idle : ∀ e, d.changes e e
  changes : ∀ {e e'}, d.changes e e' → H e e'
  trusts : ∀ {c}, d.trusts c → ∀ h e s, (c h e).Upholds d.Permits (H s) s

theorem Bounds.upholds (hH : d.Bounds H) {r : Reaction ε} (hr : r.Obeys d) (e : ε) :
    r.Upholds d.Permits (H e) e :=
  Reaction.Within.upholds hH.trans r e (within_of_obeys hH.changes hr) (hH.refl e)

/-- The discipline as rules for the operations in `L`, which may be those of a host that keeps to the
discipline in what it hands out only. -/
def conduct (d : Discipline ε) (hH : d.Bounds H) (hL : ∀ {op}, d.performs op → L op) :
    Conduct ε where
  operation op := L op ∧ op.Grants d
  host := H
  handler f := ∀ s message e, d.changes e (f s message e)
  body b := ∀ args, (b args).Obeys d
  callbacks c := d.trusts c ∨ ∀ h e, (c h e).Obeys d
  refl := hH.refl
  trans := hH.trans
  reset _ _ e := hH.idle e
  host_of_handler hf s message e := hH.changes (hf s message e)
  body_of_operation hop := hop.2
  callbacks_of_operation hop := hop.2
  upholds_of_body hb args e :=
    (Reaction.Upholds.mono fun _ hop => ⟨hL hop.1, hop.2⟩) _ e (hH.upholds (hb args) e)
  upholds_of_callbacks hc h e s := by
    refine Reaction.Upholds.mono (K := d.Permits) (fun op hop => ⟨hL hop.1, hop.2⟩) _ s ?_
    rcases hc with hc | hc
    · exact hH.trusts hc h e s
    · exact hH.upholds (hc h e) s

end Discipline

end Dialogue
