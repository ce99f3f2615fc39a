/-
# The REST table of readings

`python-beginner/4.ora/sqlrest.py`. `add_user` calls `testtable(lm35, dht22)`
where the constructor is `__init__(self, dht22, lm35)`, so a POST puts each value
into the other column; `user_update` assigns them by name. `lm35` is a float
column and `dht22` an integer one, so a value may change where it is stored.

A handler is a partial function of the table: nothing where it raises, and then
the session is dropped without a commit. What Flask and the database do with
the values is a `Platform`: the fields of a JSON body, the value that is posted
with one, what a column holds for it, NULL, and the row an id of the URL stands
for. What is acknowledged are the posted values themselves.

* `last_acknowledged_iff`: the table holds the last acknowledged readings exactly
  as long as every successful POST and PUT leaves in each column the value
  posted for it.
* `post_swaps`: a POST of two different values.
-/
import Netacademia.Lib.Machine
import Netacademia.Lib.Table
import Netacademia.Lib.Json

namespace Netacademia
namespace Rest

open Lib

/-- What the code relies on: `request.json[key]`, the value posted, the value a column
holds for it (nothing where the database refuses it), NULL, and the id that a
path segment matches. -/
structure Platform (J V S : Type) where
  item : J → List Char → Option J
  val : J → V
  lm35 : J → Option V
  dht22 : J → Option V
  null : V
  rowId : S → Option ℕ

/-- What a row of `testtable` holds beside its id. -/
structure Reading (V T : Type) where
  lm35 : V
  dht22 : V
  datetime : T

structure Row (V T : Type) extends Reading V T where
  id : ℕ

section Handlers

variable {J V S T : Type} [DecidableEq V] [DecidableEq T] (p : Platform J V S)

/-- `unique=True` of the three columns; NULL is never a duplicate. -/
def schema (T : Type) [DecidableEq T] : Schema (Row V T) where
  key := Row.id
  clash a b :=
    decide (a.lm35 = b.lm35 ∧ a.lm35 ≠ p.null) || decide (a.dht22 = b.dht22 ∧ a.dht22 ≠ p.null) ||
      decide (a.datetime = b.datetime)
  clash_comm a b := by
    have hcol : ∀ x y : V, decide (x = y ∧ x ≠ p.null) = decide (y = x ∧ y ≠ p.null) := fun x y =>
      decide_eq_decide.mpr ⟨fun h => ⟨h.1.symm, h.1 ▸ h.2⟩, fun h => ⟨h.1.symm, h.1 ▸ h.2⟩⟩
    rw [hcol a.lm35, hcol a.dht22, decide_eq_decide.mpr (eq_comm (a := a.datetime))]

/-- `testtable.__init__(self, dht22, lm35)`, as the columns hold it. -/
def testtable (dht22 lm35 : J) (now : T) : Option (Reading V T) := do
  let d ← p.dht22 dht22
  let l ← p.lm35 lm35
  return ⟨l, d, now⟩

/-- `add_user`, with the keys that failed inserts took before. -/
def addUser (json : Option J) (now : T) (gap : ℕ) (t : Table (schema p T)) : Option (Table (schema p T)) := do
  let body ← json
  let lm35 ← p.item body ['l', 'm', '3', '5']
  let dht22 ← p.item body ['d', 'h', 't', '2', '2']
  let newData ← testtable p lm35 dht22 now
  t.insert gap (fun id => ⟨newData, id⟩) fun _ => rfl

/-- `user_update` -/
def userUpdate (id : S) (json : Option J) (now : T) (t : Table (schema p T)) : Option (Table (schema p T)) := do
  let tdata := (p.rowId id).bind t.get
  let body ← json
  let nlm35 ← p.item body ['l', 'm', '3', '5']
  let ndht22 ← p.item body ['d', 'h', 't', '2', '2']
  let tdata ← tdata
  let l ← p.lm35 nlm35
  let d ← p.dht22 ndht22
  t.update { tdata with lm35 := l, dht22 := d, datetime := now }

/-- `user_delete` -/
def userDelete (id : S) (t : Table (schema p T)) : Option (Table (schema p T)) := do
  let tdata ← (p.rowId id).bind t.get
  return t.delete tdata.id

end Handlers

/-- A request, with the time at the server and the keys lost before it. -/
inductive Request (J S T : Type)
  | post (json : Option J) (now : T) (gap : ℕ)
  | put (id : S) (json : Option J) (now : T)
  | delete (id : S)
  /-- `get_user` and `user_detail` -/
  | get (id : Option S)

section Runs

variable {J V S T : Type} [DecidableEq V] [DecidableEq T] (p : Platform J V S)

/-- The handler of a request: the table it commits. -/
def handler : Request J S T → Table (schema p T) → Option (Table (schema p T))
  | .post json now gap, t => addUser p json now gap t
  | .put id json now, t => userUpdate p id json now t
  | .delete id, t => userDelete p id t
  | .get _, t => some t

/-- The server: a request that fails leaves the table. -/
def server (t₀ : Table (schema p T)) : Machine (Table (schema p T)) (Request J S T) where
  init := t₀
  step t r := some ((handler p r t).getD t)

/-- The two fields of a body. -/
def fields (json : Option J) : Option (J × J) := do
  let body ← json
  let lm35 ← p.item body ['l', 'm', '3', '5']
  let dht22 ← p.item body ['d', 'h', 't', '2', '2']
  return (lm35, dht22)

/-- The row with exactly the posted values. -/
def rowOf (json : Option J) (id : ℕ) (now : T) : Option (Row V T) :=
  (fields p json).map fun posted => ⟨⟨p.val posted.1, p.val posted.2, now⟩, id⟩

/-- What has been acknowledged for each id, after a request that succeeds. -/
def acknowledge (ack : ℕ → Option (Row V T)) (t : Table (schema p T)) (r : Request J S T) : ℕ → Option (Row V T) :=
  if (handler p r t).isSome then
    match r with
    | .post json now gap => Function.update ack (t.next + gap) (rowOf p json (t.next + gap) now)
    | .put id json now =>
      match p.rowId id with
      | some k => Function.update ack k (rowOf p json k now)
      | none => ack
    | .delete id =>
      match p.rowId id with
      | some k => Function.update ack k none
      | none => ack
    | .get _ => ack
  else ack

/-- The server with what it has acknowledged. -/
def acknowledged (t₀ : Table (schema p T)) : Machine (Table (schema p T) × (ℕ → Option (Row V T))) (Request J S T) :=
  (server p t₀).history t₀.get (acknowledge p)

/-- The table is the map of the last acknowledged readings. -/
def Last (s : Table (schema p T) × (ℕ → Option (Row V T))) : Prop := s.1.get = s.2

/-- A POST or PUT that succeeds leaves the posted values: a POST hands `dht22` to the
column `lm35` and `lm35` to the column `dht22`, a PUT each to its own. -/
def StoresPosted (s : Table (schema p T) × (ℕ → Option (Row V T))) : Request J S T → Prop
  | .post json now gap =>
    (addUser p json now gap s.1).isSome = true → ∀ lm35 dht22, fields p json = some (lm35, dht22) →
      p.lm35 dht22 = some (p.val lm35) ∧ p.dht22 lm35 = some (p.val dht22)
  | .put id json now =>
    (userUpdate p id json now s.1).isSome = true → ∀ lm35 dht22, fields p json = some (lm35, dht22) →
      p.lm35 lm35 = some (p.val lm35) ∧ p.dht22 dht22 = some (p.val dht22)
  | _ => True

/-! ### The handlers on the table -/

variable {p} {t t' : Table (schema p T)} {json : Option J} {now : T}

omit [DecidableEq V] [DecidableEq T] in
theorem fields_eq_some {body lm35 dht22 : J} (hl : p.item body ['l', 'm', '3', '5'] = some lm35)
    (hd : p.item body ['d', 'h', 't', '2', '2'] = some dht22) : fields p (some body) = some (lm35, dht22) := by
  unfold fields
  rw [Option.bind_eq_bind, Option.bind_some, hl, hd]
  rfl

omit [DecidableEq V] [DecidableEq T] in
theorem rowOf_of_fields {lm35 dht22 : J} (h : fields p json = some (lm35, dht22)) (id : ℕ) :
    rowOf p json id now = some ⟨⟨p.val lm35, p.val dht22, now⟩, id⟩ := by
  rw [rowOf, h, Option.map_some]

/-- A POST that succeeds: the value of the field `lm35` goes to the column `dht22`, and the other way. -/
theorem addUser_eq_some {gap : ℕ} (h : addUser p json now gap t = some t') :
    ∃ lm35 dht22 l d, fields p json = some (lm35, dht22) ∧ p.lm35 dht22 = some l ∧ p.dht22 lm35 = some d ∧
      t'.get = Function.update t.get (t.next + gap) (some ⟨⟨l, d, now⟩, t.next + gap⟩) := by
  simp only [addUser, testtable, Option.bind_eq_bind, Option.bind_eq_some_iff] at h
  obtain ⟨body, rfl, lm35, hl, dht22, hd, new, ⟨d, hd', l, hl', hn⟩, hi⟩ := h
  obtain rfl := Option.some.inj hn
  exact ⟨lm35, dht22, l, d, fields_eq_some hl hd, hl', hd', Table.get_insert hi⟩

/-- A PUT that succeeds: each value goes to its own column. -/
theorem userUpdate_eq_some {id : S} (h : userUpdate p id json now t = some t') :
    ∃ k lm35 dht22 l d, p.rowId id = some k ∧ fields p json = some (lm35, dht22) ∧ p.lm35 lm35 = some l ∧
      p.dht22 dht22 = some d ∧ t'.get = Function.update t.get k (some ⟨⟨l, d, now⟩, k⟩) := by
  simp only [userUpdate, Option.bind_eq_bind, Option.bind_eq_some_iff] at h
  obtain ⟨body, rfl, lm35, hl, dht22, hd, old, ⟨k, hk, hold⟩, l, hl', d, hd', hu⟩ := h
  have hid : old.id = k := Table.get_key hold
  have hsome : (t.get ((schema p T).key { old with lm35 := l, dht22 := d, datetime := now })).isSome := by
    change (t.get old.id).isSome
    rw [hid, hold]
    rfl
  have hget := Table.get_update hu hsome
  subst hid
  exact ⟨old.id, lm35, dht22, l, d, hk, fields_eq_some hl hd, hl', hd', hget⟩

/-- A DELETE that succeeds leaves no row. -/
theorem userDelete_eq_some {id : S} (h : userDelete p id t = some t') :
    ∃ k, p.rowId id = some k ∧ t'.get = Function.update t.get k none := by
  simp only [userDelete, Option.bind_eq_bind, Option.bind_eq_some_iff] at h
  obtain ⟨old, ⟨k, hk, hold⟩, hd⟩ := h
  obtain rfl := Option.some.inj hd
  have hid : old.id = k := Table.get_key hold
  exact ⟨k, hk, hid ▸ Table.get_delete t old.id⟩

/-! ### The runs -/

variable {ack : ℕ → Option (Row V T)}

omit [DecidableEq V] [DecidableEq T] in
/-- What a row written under `k` has to be for the map to be kept. -/
theorem update_eq_iff {m : ℕ → Option (Row V T)} {k : ℕ} {l d l' d' : V} :
    Function.update m k (some ⟨⟨l, d, now⟩, k⟩) = Function.update m k (some ⟨⟨l', d', now⟩, k⟩) ↔
      l = l' ∧ d = d' := by
  constructor
  · intro he
    have hk := congrFun he k
    rw [Function.update_self, Function.update_self] at hk
    simpa using hk
  · rintro ⟨rfl, rfl⟩
    rfl

omit [DecidableEq V] [DecidableEq T] in
/-- A body has one pair of fields. -/
theorem forall_fields_iff {lm35 dht22 : J} (h : fields p json = some (lm35, dht22)) {Q : J → J → Prop} :
    (∀ lm35' dht22', fields p json = some (lm35', dht22') → Q lm35' dht22') ↔ Q lm35 dht22 := by
  constructor
  · exact fun hq => hq lm35 dht22 h
  · intro hq lm35' dht22' h'
    obtain ⟨rfl, rfl⟩ := Prod.mk.inj (Option.some.inj (h.symm.trans h'))
    exact hq

/-- A POST keeps the map exactly where it stores the posted values. -/
theorem last_post_iff {gap : ℕ} (hlast : t.get = ack) (h : addUser p json now gap t = some t') :
    t'.get = acknowledge p ack t (.post json now gap : Request J S T) ↔
      StoresPosted p (t, ack) (.post json now gap : Request J S T) := by
  obtain ⟨lm35, dht22, l, d, hf, hl, hd, hget⟩ := addUser_eq_some h
  have hok : (addUser p json now gap t).isSome = true := Option.isSome_of_eq_some h
  have hack : acknowledge p ack t (.post json now gap : Request J S T) =
      Function.update ack (t.next + gap) (some ⟨⟨p.val lm35, p.val dht22, now⟩, t.next + gap⟩) := by
    rw [acknowledge, handler, if_pos hok, rowOf_of_fields hf]
  rw [hack, hget, hlast, update_eq_iff, StoresPosted, forall_prop_of_true hok, forall_fields_iff hf, hl, hd,
    Option.some_inj, Option.some_inj]

/-- And so does a PUT. -/
theorem last_put_iff {id : S} (hlast : t.get = ack) (h : userUpdate p id json now t = some t') :
    t'.get = acknowledge p ack t (.put id json now : Request J S T) ↔
      StoresPosted p (t, ack) (.put id json now : Request J S T) := by
  obtain ⟨k, lm35, dht22, l, d, hk, hf, hl, hd, hget⟩ := userUpdate_eq_some h
  have hok : (userUpdate p id json now t).isSome = true := Option.isSome_of_eq_some h
  have hack : acknowledge p ack t (.put id json now : Request J S T) =
      Function.update ack k (some ⟨⟨p.val lm35, p.val dht22, now⟩, k⟩) := by
    rw [acknowledge, handler, if_pos hok, ← rowOf_of_fields hf]
    simp only [hk]
  rw [hack, hget, hlast, update_eq_iff, StoresPosted, forall_prop_of_true hok, forall_fields_iff hf, hl, hd,
    Option.some_inj, Option.some_inj]

/-- A DELETE keeps the map. -/
theorem last_delete {id : S} (hlast : t.get = ack) (h : userDelete p id t = some t') :
    t'.get = acknowledge p ack t (.delete id : Request J S T) := by
  have hok : (handler p (.delete id : Request J S T) t).isSome = true := Option.isSome_of_eq_some h
  obtain ⟨k, hk, hget⟩ := userDelete_eq_some h
  rw [acknowledge, if_pos hok]
  simp only [hk, hget, hlast]

/-- A request that fails is acknowledged for no id, and stores nothing. -/
theorem acknowledge_of_none {r : Request J S T} (h : handler p r t = none) : acknowledge p ack t r = ack := by
  unfold acknowledge
  rw [h]
  rfl

theorem storesPosted_of_none {r : Request J S T} (h : handler p r t = none) : StoresPosted p (t, ack) r := by
  cases r with
  | post json now gap =>
    intro hok
    rw [show addUser p json now gap t = none from h] at hok
    cases hok
  | put id json now =>
    intro hok
    rw [show userUpdate p id json now t = none from h] at hok
    cases hok
  | delete id => trivial
  | get id => trivial

/-- A request keeps the map exactly where it stores the values that were posted. -/
theorem last_step_iff {s s' : Table (schema p T) × (ℕ → Option (Row V T))} {t₀ : Table (schema p T)}
    {r : Request J S T} (h : Last p s) (hs : (acknowledged p t₀).step s r = some s') :
    Last p s' ↔ StoresPosted p s r := by
  obtain ⟨t, ack⟩ := s
  obtain ⟨t', ack'⟩ := s'
  obtain ⟨htable, hack⟩ := Machine.history_step.mp hs
  simp only [server, Option.some.injEq] at htable hack
  subst hack
  cases hh : handler p r t with
  | none =>
    -- the request failed: neither the table nor the map changes
    rw [hh, Option.getD_none] at htable
    subst htable
    exact iff_of_true (h.trans (acknowledge_of_none hh).symm) (storesPosted_of_none hh)
  | some t₁ =>
    rw [hh, Option.getD_some] at htable
    subst htable
    cases r with
    | post json now gap => exact last_post_iff h hh
    | put id json now => exact last_put_iff h hh
    | delete id => exact iff_of_true (last_delete h hh) trivial
    | get id =>
      obtain rfl := Option.some.inj hh
      exact iff_of_true h trivial

/-- **When the table holds the last readings.** From any table and for any requests:
after each of them the table is the map of the last acknowledged readings, with
all other rows as they were, if and only if every POST and every PUT that
succeeds stores in each column the value posted for it. -/
theorem last_acknowledged_iff (p : Platform J V S) (t₀ : Table (schema p T)) (rs : List (Request J S T)) :
    (acknowledged p t₀).Throughout (Last p) (acknowledged p t₀).init rs ↔
      (acknowledged p t₀).Along (StoresPosted p) (acknowledged p t₀).init rs := by
  have hinit : Last p (acknowledged p t₀).init := rfl
  exact (acknowledged p t₀).throughout_iff_along (fun _ h => h) (fun _ _ _ h hc hs => (last_step_iff h hs).mpr hc)
    (fun _ _ _ h hc hs hl => hc ((last_step_iff h hs).mp hl)) hinit rs

end Runs

/-- JSON bodies of numbers, in columns that hold integers and NULL. -/
def numbers : Platform Json (Option ℤ) ℕ where
  item body key := body.getItem key
  val json := (column json).getD none
  lm35 := column
  dht22 := column
  null := none
  rowId := some
where
  column : Json → Option (Option ℤ)
    | .int n => some (some n)
    | .null => some none
    | _ => none

/-- A POST of `{"lm35": 21, "dht22": 45}` to an empty table. -/
theorem post_swaps : ¬ ∀ (t₀ : Table (schema numbers ℕ)) (rs : List (Request Json ℕ ℕ)),
    (acknowledged numbers t₀).Throughout (Last numbers) (acknowledged numbers t₀).init rs := by
  intro h
  have hlast := (h .empty [.post (some (.obj [(['l', 'm', '3', '5'], .int 21), (['d', 'h', 't', '2', '2'], .int 45)]))
    0 0]).2 _ rfl
  have h0 := congrArg (Option.map fun r => r.lm35) (congrFun hlast 0)
  revert h0
  decide

end Rest
end Netacademia
