import Dialogue.Story.Store

namespace Dialogue

inductive StoreReply where
  | unit
  | value (v : Option Value)
  | changed (r : Except ValueError Bool)
  | id (n : Nat)
  | flag (b : Bool)
  | names (ns : List String)
  | domains (ds : List EnumDomain)

mutual

inductive StoreOperation (δ : Type) where
  | get (name : String)
  | set (name : String) (v : Value)
  | insert (name : String) (v : Value)
  | declareEnum (d : EnumDomain)
  | watch (name : String) (watcher : Watcher δ)
  | unwatch (id : Nat)
  | names
  | domains

inductive Watcher (δ : Type) where
  | mk (tell : Nat → String → Value → WatcherCode δ)

inductive WatcherCode (δ : Type) where
  | done
  | update (f : δ → δ) (next : WatcherCode δ)
  | inspect (next : δ → WatcherCode δ)
  | call (op : StoreOperation δ) (next : StoreReply → WatcherCode δ)

end

def Watcher.tell {δ : Type} : Watcher δ → Nat → String → Value → WatcherCode δ
  | mk f => f

structure Watched (δ : Type) where
  store : VariableStore (Watcher δ)
  host : δ

namespace Watched

variable {δ : Type}

def perform (exec : StoreOperation δ → Watched δ → Option (StoreReply × Watched δ)) :
    WatcherCode δ → Watched δ → Option (Watched δ)
  | .done, s => some s
  | .update f next, s => perform exec next { s with host := f s.host }
  | .inspect next, s => perform exec (next s.host) s
  | .call op next, s =>
    match exec op s with
    | some (r, s) => perform exec (next r) s
    | none => none

def notify (exec : StoreOperation δ → Watched δ → Option (StoreReply × Watched δ))
    (name : String) (v : Value) : List (Watch (Watcher δ)) → Watched δ → Option (Watched δ)
  | [], s => some s
  | w :: rest, s =>
    match perform exec (w.watcher.tell w.id name v) s with
    | some s => notify exec name v rest s
    | none => none

def exec : Nat → StoreOperation δ → Watched δ → Option (StoreReply × Watched δ)
  | 0, _, _ => none
  | fuel + 1, op, s =>
    match op with
    | .get name => some (.value (s.store.get? name), s)
    | .set name v =>
      match s.store.set name v with
      | .error e => some (.changed (.error e), s)
      | .ok none => some (.changed (.ok false), s)
      | .ok (some (store, told)) =>
        (notify (exec fuel) name v told { s with store := store }).map
          fun s => (.changed (.ok true), s)
    | .insert name v => some (.unit, { s with store := s.store.insert name v })
    | .declareEnum d => some (.unit, { s with store := s.store.declareEnum d })
    | .watch name watcher =>
      let (id, store) := s.store.watch name watcher
      some (.id id, { s with store := store })
    | .unwatch id => some (.flag (s.store.isWatched id), { s with store := s.store.unwatch id })
    | .names => some (.names s.store.names, s)
    | .domains => some (.domains s.store.domains.values, s)

end Watched

end Dialogue
