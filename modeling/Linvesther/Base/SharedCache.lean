import Mathlib

/-! A cache with a lifetime and a bound, whose values are loaded in the background: whoever asks for a key while
its load is under way waits for that load. A load is answered, its value is stored, and then it is over. -/

namespace SharedCache

section Cache

variable {L V : Type}

structure Entry (V : Type) where
  key : String
  value : V
  expiresAt : ℕ

inductive Phase (V : Type) where
  | running
  | answered (r : Except String V)
  | stored (r : Except String V)
  | finished (r : Except String V)

structure Load (L V : Type) where
  key : String
  request : L
  phase : Phase V

/-- Entries in the order of their insertion, and the load under way for a key, by its place in `loads`. -/
structure Cache (L V : Type) where
  entries : List (Entry V)
  inflight : String → Option ℕ
  loads : List (Load L V)

def Cache.empty : Cache L V := ⟨[], fun _ => none, []⟩

/-- What a load has brought so far. -/
def Phase.value : Phase V → Option V
  | .running => none
  | .answered r | .stored r | .finished r => r.toOption

def Phase.isOver : Phase V → Bool
  | .finished _ => true
  | _ => false

/-- What those who wait for a load get, once it is over. -/
def Cache.outcome (c : Cache L V) (i : ℕ) : Option (Except String V) :=
  match c.loads[i]? with
  | some ⟨_, _, .finished r⟩ => some r
  | _ => none

/-- A value that is fresh enough, or the load to wait for: the one under way, else a new one. -/
def Cache.get (c : Cache L V) (now : ℕ) (key : String) (request : L) : (V ⊕ ℕ) × Cache L V :=
  let joined : (V ⊕ ℕ) × Cache L V :=
    match c.inflight key with
    | some i => (.inr i, c)
    | none => (.inr c.loads.length,
        { c with
          inflight := Function.update c.inflight key (some c.loads.length)
          loads := c.loads ++ [⟨key, request, .running⟩] })
  match c.entries.find? fun e => e.key = key with
  | some e => if now < e.expiresAt then (.inl e.value, c) else joined
  | none => joined

def Load.answer (respond : L → Except String V) (l : Load L V) : Load L V :=
  match l.phase with
  | .running => { l with phase := .answered (respond l.request) }
  | _ => l

def Cache.answer (c : Cache L V) (i : ℕ) (respond : L → Except String V) : Cache L V :=
  { c with loads := c.loads.modify i (Load.answer respond) }

/-- A key that is there keeps its place. -/
def setEntry (entries : List (Entry V)) (e : Entry V) : List (Entry V) :=
  if entries.any fun old => old.key = e.key then entries.map fun old => if old.key = e.key then e else old
  else entries ++ [e]

/-- Over the bound, what has expired goes, and then the oldest entries. -/
def evict (cap now : ℕ) (entries : List (Entry V)) : List (Entry V) :=
  let fresh := entries.filter fun e => now < e.expiresAt
  fresh.drop (fresh.length - cap)

def Cache.store (c : Cache L V) (ttl cap now i : ℕ) : Cache L V :=
  match c.loads[i]? with
  | some ⟨key, request, .answered r⟩ =>
    let loads := c.loads.set i ⟨key, request, .stored r⟩
    match r with
    | .ok value =>
      let entries := setEntry c.entries ⟨key, value, now + ttl⟩
      { c with loads, entries := if cap < entries.length then evict cap now entries else entries }
    | .error _ => { c with loads }
  | _ => c

def Cache.finish (c : Cache L V) (i : ℕ) : Cache L V :=
  match c.loads[i]? with
  | some ⟨key, request, .stored r⟩ =>
    { c with
      inflight := Function.update c.inflight key none
      loads := c.loads.set i ⟨key, request, .finished r⟩ }
  | _ => c

/-- Entries go; loads under way stay. -/
def Cache.deleteWhere (c : Cache L V) (drops : String → Bool) : Cache L V :=
  { c with entries := c.entries.filter fun e => ¬ drops e.key }

/-- Loads are asked for under their keys, and a load under way is registered under its own; what the cache can
hand out of itself satisfies `P`. -/
structure Sound (Asked : String → L → Prop) (P : String → V → Prop) (c : Cache L V) : Prop where
  asked : ∀ (i : ℕ) l, c.loads[i]? = some l → Asked l.key l.request
  inflight : ∀ key i, c.inflight key = some i →
    ∃ l, c.loads[i]? = some l ∧ l.key = key ∧ l.phase.isOver = false
  entries : ∀ e ∈ c.entries, P e.key e.value
  loads : ∀ (i : ℕ) l, c.loads[i]? = some l → l.phase.isOver = false → ∀ v, l.phase.value = some v → P l.key v

/-- What the load brings, if anything, satisfies `P`. -/
def Brings (P : String → V → Prop) (c : Cache L V) (key : String) (i : ℕ) : Prop :=
  ∃ l, c.loads[i]? = some l ∧ l.key = key ∧ ∀ v, l.phase.value = some v → P key v

/-- Loads stay what they were asked for, and bring nothing that was not answered. -/
def Evolves (respond : L → Except String V) (c c' : Cache L V) : Prop :=
  ∀ (i : ℕ) l, c.loads[i]? = some l → ∃ l', c'.loads[i]? = some l' ∧ l'.key = l.key ∧ l'.request = l.request ∧
    ∀ v, l'.phase.value = some v → l.phase.value = some v ∨ respond l.request = .ok v

variable {Asked : String → L → Prop} {P : String → V → Prop} {c c' : Cache L V} {key : String} {i j now : ℕ}
  {request : L} {respond : L → Except String V}

theorem sound_empty : Sound Asked P (Cache.empty : Cache L V) := by
  constructor
  · intro i l h
    cases h
  · intro key i h
    cases h
  · intro e h
    cases h
  · intro i l h
    cases h

theorem Brings.outcome (h : Brings P c key i) {v : V} (hv : c.outcome i = some (.ok v)) : P key v := by
  obtain ⟨l, hl, -, hvalue⟩ := h
  unfold Cache.outcome at hv
  rw [hl] at hv
  obtain ⟨key', request, phase⟩ := l
  cases phase with
  | finished r =>
    cases hv
    exact hvalue v rfl
  | running => cases hv
  | answered r => cases hv
  | stored r => cases hv

/-- A load that is asked for under its key brings what is answered to such requests. -/
theorem Brings.evolves (h : Brings P c key i) (hsound : Sound Asked P c)
    (hrespond : ∀ key request v, Asked key request → respond request = .ok v → P key v)
    (hevolves : Evolves respond c c') : Brings P c' key i := by
  obtain ⟨l, hl, rfl, hvalue⟩ := h
  obtain ⟨l', hl', hkey, -, hvalue'⟩ := hevolves i l hl
  refine ⟨l', hl', hkey, fun v hv => ?_⟩
  rcases hvalue' v hv with hold | hnew
  · exact hvalue v hold
  · exact hrespond _ _ v (hsound.asked i l hl) hnew

theorem evolves_of_prefix (h : c.loads <+: c'.loads) : Evolves respond c c' := by
  intro i l hl
  obtain ⟨more, hmore⟩ := h
  refine ⟨l, ?_, rfl, rfl, fun v hv => .inl hv⟩
  rw [← hmore, List.getElem?_append_left (List.getElem?_eq_some_iff.1 hl).1]
  exact hl

/-- One change of a load: it keeps its key and its request. -/
theorem getElem?_set_eq {l l' : Load L V} {loads : List (Load L V)} (hl : loads[i]? = some l) :
    (loads.set i l')[j]? = if i = j then some l' else loads[j]? := by
  rw [List.getElem?_set]
  split_ifs with hij hlt
  · rfl
  · rw [List.getElem?_eq_none (Nat.not_lt.1 hlt)] at hl
    cases hl
  · rfl

/-- A step of one load changes it and nothing else of the loads. -/
theorem evolves_set {phase phase' : Phase V} (hl : c.loads[i]? = some ⟨key, request, phase⟩)
    (hloads : c'.loads = c.loads.set i ⟨key, request, phase'⟩)
    (hvalue : ∀ v, phase'.value = some v → phase.value = some v ∨ respond request = .ok v) :
    Evolves respond c c' := by
  intro j m hm
  rw [hloads, getElem?_set_eq hl]
  split_ifs with hij
  · subst hij
    rw [hl] at hm
    cases hm
    exact ⟨_, rfl, rfl, rfl, hvalue⟩
  · exact ⟨m, hm, rfl, rfl, fun v hv => .inl hv⟩

/-! The sources of what a cache hands out, operation by operation. -/

theorem Cache.get_cases (c : Cache L V) (now : ℕ) (key : String) (request : L) :
    (∃ e ∈ c.entries, e.key = key ∧ c.get now key request = (.inl e.value, c)) ∨
    (∃ i, c.inflight key = some i ∧ c.get now key request = (.inr i, c)) ∨
    c.inflight key = none ∧ c.get now key request = (.inr c.loads.length,
      { c with
        inflight := Function.update c.inflight key (some c.loads.length)
        loads := c.loads ++ [⟨key, request, .running⟩] }) := by
  have hjoined : ∀ r, r = (match c.inflight key with
      | some i => (.inr i, c)
      | none => (.inr c.loads.length,
          { c with
            inflight := Function.update c.inflight key (some c.loads.length)
            loads := c.loads ++ [⟨key, request, .running⟩] }) : (V ⊕ ℕ) × Cache L V) →
      (∃ i, c.inflight key = some i ∧ r = (.inr i, c)) ∨ c.inflight key = none ∧ r = (.inr c.loads.length,
        { c with
          inflight := Function.update c.inflight key (some c.loads.length)
          loads := c.loads ++ [⟨key, request, .running⟩] }) := by
    intro r hr
    cases h : c.inflight key with
    | some i =>
      rw [h] at hr
      exact .inl ⟨i, rfl, hr⟩
    | none =>
      rw [h] at hr
      exact .inr ⟨rfl, hr⟩
  unfold Cache.get
  dsimp only
  split
  next e he =>
    have hkey := List.find?_some he
    rw [decide_eq_true_eq] at hkey
    split_ifs
    · exact .inl ⟨e, List.mem_of_find?_eq_some he, hkey, rfl⟩
    · exact .inr (hjoined _ rfl)
  next => exact .inr (hjoined _ rfl)

theorem Cache.get_evolves : Evolves respond c (c.get now key request).2 := by
  rcases c.get_cases now key request with ⟨e, -, -, h⟩ | ⟨i, -, h⟩ | ⟨-, h⟩
  · rw [h]
    exact evolves_of_prefix (List.prefix_refl _)
  · rw [h]
    exact evolves_of_prefix (List.prefix_refl _)
  · rw [h]
    exact evolves_of_prefix (List.prefix_append ..)

theorem getElem?_append_load {loads : List (Load L V)} {l new : Load L V} (h : (loads ++ [new])[i]? = some l) :
    loads[i]? = some l ∨ i = loads.length ∧ l = new := by
  rw [List.getElem?_append] at h
  split_ifs at h with hi
  · exact .inl h
  · obtain ⟨hlt, hget⟩ := List.getElem?_eq_some_iff.1 h
    rw [List.length_singleton] at hlt
    rw [List.getElem_singleton] at hget
    exact .inr ⟨by omega, hget.symm⟩

theorem Sound.get (h : Sound Asked P c) (hask : Asked key request) : Sound Asked P (c.get now key request).2 := by
  rcases c.get_cases now key request with ⟨e, -, -, hget⟩ | ⟨i, -, hget⟩ | ⟨-, hget⟩
  · rw [hget]
    exact h
  · rw [hget]
    exact h
  · rw [hget]
    constructor
    · intro i l hl
      rcases getElem?_append_load hl with hold | ⟨-, rfl⟩
      · exact h.asked i l hold
      · exact hask
    · intro key' i hi
      by_cases hkey : key' = key
      · subst hkey
        change Function.update c.inflight key' _ key' = some i at hi
        rw [Function.update_self] at hi
        cases hi
        exact ⟨_, List.getElem?_concat_length .., rfl, rfl⟩
      · change Function.update c.inflight key _ key' = some i at hi
        rw [Function.update_of_ne hkey] at hi
        obtain ⟨l, hl, hrest⟩ := h.inflight key' i hi
        refine ⟨l, ?_, hrest⟩
        change (c.loads ++ _)[i]? = some l
        rw [List.getElem?_append_left (List.getElem?_eq_some_iff.1 hl).1]
        exact hl
    · exact h.entries
    · intro i l hl hover v hv
      rcases getElem?_append_load hl with hold | ⟨-, rfl⟩
      · exact h.loads i l hold hover v hv
      · cases hv

/-- What comes of asking: a value that is as it should, or a load that brings one. -/
theorem Sound.of_get (h : Sound Asked P c) (now : ℕ) (key : String) (request : L) :
    (∀ v, (c.get now key request).1 = .inl v → P key v) ∧
    ∀ i, (c.get now key request).1 = .inr i → Brings P (c.get now key request).2 key i := by
  rcases c.get_cases now key request with ⟨e, he, rfl, hget⟩ | ⟨i, hi, hget⟩ | ⟨-, hget⟩
  · rw [hget]
    refine ⟨fun v hv => ?_, fun i hi => (by cases hi)⟩
    cases hv
    exact h.entries e he
  · rw [hget]
    refine ⟨fun v hv => (by cases hv), fun j hj => ?_⟩
    cases hj
    obtain ⟨l, hl, rfl, hover⟩ := h.inflight key i hi
    exact ⟨l, hl, rfl, fun v hv => h.loads i l hl hover v hv⟩
  · rw [hget]
    refine ⟨fun v hv => (by cases hv), fun j hj => ?_⟩
    cases hj
    exact ⟨_, List.getElem?_concat_length .., rfl, fun v hv => (by cases hv)⟩

/-- One load goes a step on. It keeps its key, and is not over unless its key is no longer under way. -/
theorem Sound.set {phase phase' : Phase V} (h : Sound Asked P c) (hl : c.loads[i]? = some ⟨key, request, phase⟩)
    (hloads : c'.loads = c.loads.set i ⟨key, request, phase'⟩)
    (hinflight : ∀ key j, c'.inflight key = some j → c.inflight key = some j ∧
      (i = j → phase'.isOver = false))
    (hentries : ∀ e ∈ c'.entries, P e.key e.value)
    (hvalue : phase'.isOver = false → ∀ v, phase'.value = some v → P key v) : Sound Asked P c' := by
  constructor
  · intro j m hm
    rw [hloads, getElem?_set_eq hl] at hm
    split_ifs at hm with hij
    · cases hm
      exact h.asked i ⟨key, request, phase⟩ hl
    · exact h.asked j m hm
  · intro key j hj
    obtain ⟨hold, hover⟩ := hinflight key j hj
    obtain ⟨m, hm, hrest⟩ := h.inflight key j hold
    rw [hloads, getElem?_set_eq hl]
    split_ifs with hij
    · subst hij
      rw [hl] at hm
      cases hm
      exact ⟨_, rfl, hrest.1, hover rfl⟩
    · exact ⟨m, hm, hrest⟩
  · exact hentries
  · intro j m hm hover v hv
    rw [hloads, getElem?_set_eq hl] at hm
    split_ifs at hm with hij
    · cases hm
      exact hvalue hover v hv
    · exact h.loads j m hm hover v hv

theorem Cache.answer_eq (c : Cache L V) (i : ℕ) (respond : L → Except String V) :
    c.answer i respond = c ∨ ∃ key request, c.loads[i]? = some ⟨key, request, .running⟩ ∧
      c.answer i respond = { c with loads := c.loads.set i ⟨key, request, .answered (respond request)⟩ } := by
  unfold Cache.answer
  rw [List.modify_eq_set_getElem?]
  cases hl : c.loads[i]? with
  | none => exact .inl rfl
  | some l =>
    have hsame : c.loads.set i l = c.loads := by
      obtain ⟨hlt, rfl⟩ := List.getElem?_eq_some_iff.1 hl
      exact List.set_getElem_self hlt
    obtain ⟨key, request, phase⟩ := l
    cases phase with
    | running => exact .inr ⟨key, request, rfl, rfl⟩
    | answered r => exact .inl (congrArg (fun loads => { c with loads }) hsame)
    | stored r => exact .inl (congrArg (fun loads => { c with loads }) hsame)
    | finished r => exact .inl (congrArg (fun loads => { c with loads }) hsame)

theorem Phase.value_answered {r : Except String V} {v : V} (h : (Phase.answered r).value = some v) : r = .ok v := by
  cases r with
  | ok w =>
    cases h
    rfl
  | error e => cases h

theorem Cache.answer_evolves : Evolves respond c (c.answer i respond) := by
  rcases c.answer_eq i respond with h | ⟨key, request, hl, h⟩
  · rw [h]
    exact evolves_of_prefix (List.prefix_refl _)
  · rw [h]
    exact evolves_set hl rfl fun v hv => .inr (Phase.value_answered hv)

theorem Sound.answer (h : Sound Asked P c)
    (hrespond : ∀ key request v, Asked key request → respond request = .ok v → P key v) :
    Sound Asked P (c.answer i respond) := by
  rcases c.answer_eq i respond with hanswer | ⟨key, request, hl, hanswer⟩
  · rw [hanswer]
    exact h
  · rw [hanswer]
    exact h.set hl rfl (fun _ _ hj => ⟨hj, fun _ => rfl⟩) h.entries
      fun _ v hv => hrespond _ _ v (h.asked i _ hl) (Phase.value_answered hv)

theorem mem_setEntry {entries : List (Entry V)} {e new : Entry V} (h : e ∈ setEntry entries new) :
    e = new ∨ e ∈ entries := by
  unfold setEntry at h
  split_ifs at h
  · obtain ⟨old, hold, rfl⟩ := List.mem_map.1 h
    split_ifs
    · exact .inl rfl
    · exact .inr hold
  · rcases List.mem_append.1 h with hold | hnew
    · exact .inr hold
    · exact .inl (List.mem_singleton.1 hnew)

theorem mem_of_mem_evict {cap : ℕ} {entries : List (Entry V)} {e : Entry V} (h : e ∈ evict cap now entries) :
    e ∈ entries :=
  List.mem_of_mem_filter (List.mem_of_mem_drop h)

variable {ttl cap : ℕ}

theorem Cache.store_eq (c : Cache L V) (ttl cap now i : ℕ) :
    c.store ttl cap now i = c ∨ ∃ key request r entries, c.loads[i]? = some ⟨key, request, .answered r⟩ ∧
      (c.store ttl cap now i) = { c with
        entries
        loads := c.loads.set i ⟨key, request, .stored r⟩ } ∧
      ∀ e ∈ entries, e ∈ c.entries ∨ e.key = key ∧ r = .ok e.value := by
  unfold Cache.store
  split
  next key request r hl =>
    cases r with
    | error e => exact .inr ⟨key, request, .error e, c.entries, hl, rfl, fun e he => .inl he⟩
    | ok value =>
      refine .inr ⟨key, request, .ok value, _, hl, rfl, fun e he => ?_⟩
      have hset : e ∈ setEntry c.entries ⟨key, value, now + ttl⟩ := by
        split_ifs at he
        · exact mem_of_mem_evict he
        · exact he
      rcases mem_setEntry hset with rfl | hold
      · exact .inr ⟨rfl, rfl⟩
      · exact .inl hold
  next => exact .inl rfl

theorem Cache.store_evolves : Evolves respond c (c.store ttl cap now i) := by
  rcases c.store_eq ttl cap now i with h | ⟨key, request, r, entries, hl, h, -⟩
  · rw [h]
    exact evolves_of_prefix (List.prefix_refl _)
  · rw [h]
    exact evolves_set hl rfl fun v hv => .inl hv

theorem Sound.store (h : Sound Asked P c) : Sound Asked P (c.store ttl cap now i) := by
  rcases c.store_eq ttl cap now i with hstore | ⟨key, request, r, entries, hl, hstore, hentries⟩
  · rw [hstore]
    exact h
  · rw [hstore]
    have hvalue : ∀ v, r.toOption = some v → P key v := fun v hv => h.loads i _ hl rfl v hv
    refine h.set hl rfl (fun _ _ hj => ⟨hj, fun _ => rfl⟩) (fun e he => ?_) fun _ v hv => hvalue v hv
    rcases hentries e he with hold | ⟨rfl, rfl⟩
    · exact h.entries e hold
    · exact hvalue e.value rfl

theorem Cache.finish_eq (c : Cache L V) (i : ℕ) :
    c.finish i = c ∨ ∃ key request r, c.loads[i]? = some ⟨key, request, .stored r⟩ ∧
      c.finish i = { c with
        inflight := Function.update c.inflight key none
        loads := c.loads.set i ⟨key, request, .finished r⟩ } := by
  unfold Cache.finish
  split
  next key request r hl => exact .inr ⟨key, request, r, hl, rfl⟩
  next => exact .inl rfl

theorem Cache.finish_evolves : Evolves respond c (c.finish i) := by
  rcases c.finish_eq i with h | ⟨key, request, r, hl, h⟩
  · rw [h]
    exact evolves_of_prefix (List.prefix_refl _)
  · rw [h]
    exact evolves_set hl rfl fun v hv => .inl hv

theorem Sound.finish (h : Sound Asked P c) : Sound Asked P (c.finish i) := by
  rcases c.finish_eq i with hfinish | ⟨key, request, r, hl, hfinish⟩
  · rw [hfinish]
    exact h
  · rw [hfinish]
    refine h.set hl rfl (fun key' j hj => ?_) h.entries fun hover => by cases hover
    change Function.update c.inflight key none key' = some j at hj
    by_cases hkey : key' = key
    · rw [hkey, Function.update_self] at hj
      cases hj
    · rw [Function.update_of_ne hkey] at hj
      refine ⟨hj, fun hij => ?_⟩
      obtain ⟨m, hm, hsame, -⟩ := h.inflight key' j hj
      rw [← hij, hl] at hm
      cases hm
      exact absurd hsame.symm hkey

variable {drops : String → Bool}

theorem Cache.deleteWhere_evolves : Evolves respond c (c.deleteWhere drops) :=
  evolves_of_prefix (List.prefix_refl _)

theorem Sound.deleteWhere (h : Sound Asked P c) : Sound Asked P (c.deleteWhere drops) :=
  ⟨h.asked, h.inflight, fun e he => h.entries e (List.mem_of_mem_filter he), h.loads⟩

/-- What is dropped and what the loads under way do not bring can be ruled out from then on. -/
theorem Sound.forget {P' : String → V → Prop} (h : Sound Asked P c)
    (hentries : ∀ key v, drops key = false → P key v → P' key v)
    (hloads : ∀ (i : ℕ) l, c.loads[i]? = some l → l.phase.isOver = false → ∀ v, l.phase.value = some v → P' l.key v) :
    Sound Asked P' (c.deleteWhere drops) := by
  refine ⟨h.asked, h.inflight, fun e he => ?_, hloads⟩
  obtain ⟨hold, hkept⟩ := List.mem_filter.1 he
  exact hentries e.key e.value (by simpa using hkept) (h.entries e hold)

end Cache

end SharedCache
