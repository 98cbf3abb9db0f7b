/-
  Scopes of many threads over one store.

  A thread that opens a scope first draws its number, and puts the override into the store after
  that.  Other threads may do anything between these two steps, so overrides need not come into the
  store in the order of their numbers.  The guard of a scope may be dropped by any thread, at any
  time, and guards in any order.

  `Event` is one such step, and `Shared` is what the threads work on.  What should be in effect is
  said without numbers and stacks: `liveAfter` lists the keys that were set and whose guards are still
  held, oldest first.

    * `Mirrors`       the invariant on stores: the stack of a key is that part of the list
    * `Follows`       the invariant on what threads share: numbers are never given out twice
    * `shows_after`   after every step of every interleaving the store shows what the list says

  A machine opens and closes a scope by such steps (`openScope_after`, `closeScope_after`), so what its
  store shows then is known as well (`openScope_shows`, `closeScope_shows`).
-/
import KotlinHarness.Machine
import KotlinHarness.Proofs.Scope.Overrides
import Mathlib.Data.List.Induction
import Mathlib.Data.List.Nodup

namespace KotlinHarness.Properties

/-! ## Stacks -/

/-- The keys that are overridden ascend. -/
def Ordered (properties : Properties) : Prop :=
  (properties.overrides.map (·.1)).Pairwise (· < ·)

/-- A key below all others is not there. -/
theorem find?_of_below {key : String} {overrides : List (String × List Override)}
    (below : ∀ entry ∈ overrides, key < entry.1) : overrides.find? (·.1 == key) = none := by
  refine List.find?_eq_none.2 fun entry hm heq => ?_
  have hlt := below entry hm
  rw [beq_iff_eq.1 heq] at hlt
  exact absurd hlt (String.lt_irrefl key)

theorem Ordered.of_cons {first : String × List Override} {rest : List (String × List Override)}
    (h : Ordered ⟨first :: rest⟩) : (∀ entry ∈ rest, first.1 < entry.1) ∧ Ordered ⟨rest⟩ := by
  obtain ⟨above, hrest⟩ := List.pairwise_cons.1 h
  exact ⟨fun entry hm => above entry.1 (List.mem_map_of_mem hm), hrest⟩

theorem stack_cons (first : String × List Override) (rest : List (String × List Override))
    (key : String) :
    (Properties.mk (first :: rest)).stack key =
      if first.1 = key then first.2 else (Properties.mk rest).stack key := by
  by_cases h : first.1 = key <;> simp [stack, h]

theorem stack_of_below {key : String} {overrides : List (String × List Override)}
    (below : ∀ entry ∈ overrides, key < entry.1) : (Properties.mk overrides).stack key = [] := by
  rw [stack, find?_of_below below]
  rfl

/-- The stack of an entry is that of its key. -/
theorem Ordered.stack_of_mem {properties : Properties} (h : properties.Ordered)
    {entry : String × List Override} (hm : entry ∈ properties.overrides) :
    properties.stack entry.1 = entry.2 := by
  obtain ⟨overrides⟩ := properties
  induction overrides with
  | nil => exact absurd hm List.not_mem_nil
  | cons first rest ih =>
    obtain ⟨above, hrest⟩ := h.of_cons
    rw [stack_cons]
    rcases List.mem_cons.1 hm with rfl | hm
    · rw [if_pos rfl]
    · rw [if_neg (String.ne_of_lt (above entry hm)), ih hrest hm]

/-- A key that has a stack has an entry. -/
theorem mem_of_stack {properties : Properties} {key : String} (h : properties.stack key ≠ []) :
    (key, properties.stack key) ∈ properties.overrides := by
  rcases hfind : properties.overrides.find? (·.1 == key) with - | ⟨found, top⟩
  · exact absurd (by rw [stack, hfind]; rfl) h
  · have hkey : found = key := by simpa using List.find?_some hfind
    have hstack : properties.stack key = top := by rw [stack, hfind]; rfl
    rw [hstack, ← hkey]
    exact List.mem_of_find?_eq_some hfind

/-- Setting a key puts the override on top of its stack, and leaves the others. -/
theorem Ordered.stack_set {properties : Properties} (h : properties.Ordered) (scope : ScopeId)
    (key value other : String) :
    (properties.set scope key value).stack other =
      if key = other then properties.stack other ++ [⟨scope, value⟩] else properties.stack other := by
  obtain ⟨overrides⟩ := properties
  show (Properties.mk (pushOn key ⟨scope, value⟩ overrides)).stack other = _
  induction overrides with
  | nil => exact stack_cons (key, [⟨scope, value⟩]) [] other
  | cons first rest ih =>
    obtain ⟨above, hrest⟩ := h.of_cons
    rw [pushOn]
    split
    · next hlt =>
      have below : ∀ entry ∈ first :: rest, key < entry.1 :=
        List.forall_mem_cons.2 ⟨hlt, fun entry hm => String.lt_trans hlt (above entry hm)⟩
      rw [stack_cons]
      split
      · next heq => rw [← heq, stack_of_below below]; rfl
      · rfl
    · split
      · next heq =>
        rw [stack_cons, stack_cons, heq]
        split <;> rfl
      · next hne =>
        rw [stack_cons, stack_cons, ih hrest]
        by_cases hfirst : first.1 = other
        · rw [if_pos hfirst, if_pos hfirst, if_neg (fun h => hne (h.trans hfirst.symm))]
        · rw [if_neg hfirst, if_neg hfirst]

/-- Ending a scope takes its override from the stack of its key, and leaves the others. -/
theorem Ordered.stack_release {properties : Properties} (h : properties.Ordered) (scope : ScopeId)
    (key other : String) :
    (properties.release scope key).stack other =
      if key = other then (properties.stack other).filter (·.scope != scope)
      else properties.stack other := by
  obtain ⟨overrides⟩ := properties
  show (Properties.mk (overrides.filterMap (left scope key))).stack other = _
  induction overrides with
  | nil => split <;> rfl
  | cons first rest ih =>
    obtain ⟨above, hrest⟩ := h.of_cons
    have ih := ih hrest
    by_cases hkey : first.1 = key
    · -- Of the entry of the key there is left what others set, and no other entry is of the key.
      have hrest' : (Properties.mk rest).stack key = [] :=
        stack_of_below fun entry hm => hkey ▸ above entry hm
      by_cases hkept : (first.2.filter (·.scope != scope)).isEmpty
      · have hleft : left scope key first = none := by simp [left, hkey, hkept]
        rw [List.filterMap_cons_none hleft, ih, stack_cons, hkey]
        by_cases heq : key = other
        · subst heq
          rw [if_pos rfl, if_pos rfl, if_pos rfl, hrest', List.isEmpty_iff.1 hkept]
          rfl
        · rw [if_neg heq, if_neg heq, if_neg heq]
      · have hleft : left scope key first = some (key, first.2.filter (·.scope != scope)) := by
          simp [left, hkey, hkept]
        rw [List.filterMap_cons_some hleft, stack_cons, stack_cons, ih, hkey]
        by_cases heq : key = other
        · rw [if_pos heq, if_pos heq, if_pos heq]
        · rw [if_neg heq, if_neg heq, if_neg heq, if_neg heq]
    · have hleft : left scope key first = some first := by simp [left, hkey]
      rw [List.filterMap_cons_some hleft, stack_cons, stack_cons, ih]
      by_cases hfirst : first.1 = other
      · rw [if_pos hfirst, if_pos hfirst, if_neg (fun h => hkey (hfirst.trans h.symm))]
      · rw [if_neg hfirst, if_neg hfirst]

theorem Ordered.set {properties : Properties} (h : properties.Ordered) (scope : ScopeId)
    (key value : String) : (properties.set scope key value).Ordered := by
  obtain ⟨overrides⟩ := properties
  show Ordered ⟨pushOn key ⟨scope, value⟩ overrides⟩
  induction overrides with
  | nil => exact List.pairwise_singleton _ _
  | cons first rest ih =>
    obtain ⟨above, hrest⟩ := h.of_cons
    rw [pushOn]
    split
    · next hlt =>
      refine List.pairwise_cons.2 ⟨fun other hm => ?_, h⟩
      rcases List.mem_cons.1 hm with rfl | hm
      · exact hlt
      · obtain ⟨entry, hentry, rfl⟩ := List.mem_map.1 hm
        exact String.lt_trans hlt (above entry hentry)
    · next hlt =>
      split
      · next heq =>
        rw [heq]
        exact h
      · next hne =>
        refine List.pairwise_cons.2 ⟨fun other hm => ?_, ih hrest⟩
        obtain ⟨entry, hentry, rfl⟩ := List.mem_map.1 hm
        rcases mem_pushOn hentry with hentry | ⟨stack, rfl, -⟩
        · exact above entry hentry
        · exact Text.lt_of_not_lt_of_ne hlt hne

theorem Ordered.release {properties : Properties} (h : properties.Ordered) (scope : ScopeId)
    (key : String) : (properties.release scope key).Ordered := by
  have hkey : ∀ {entry kept : String × List Override}, left scope key entry = some kept →
      kept.1 = entry.1 := by
    intro entry kept hleft
    simp only [left] at hleft
    split at hleft
    · split at hleft <;> cases hleft
      rfl
    · cases hleft
      rfl
  refine h.sublist ?_
  show ((properties.overrides.filterMap (left scope key)).map (·.1)).Sublist _
  induction properties.overrides with
  | nil => exact .slnil
  | cons first rest ih =>
    rcases hleft : left scope key first with - | kept
    · rw [List.filterMap_cons_none hleft]
      exact .cons _ ih
    · rw [List.filterMap_cons_some hleft, List.map_cons, List.map_cons, hkey hleft]
      exact ih.cons_cons _

/-! ## Snapshots -/

theorem Ordered.ascending_snapshot {properties : Properties} (h : properties.Ordered) :
    properties.snapshot.Ascending := by
  refine List.Pairwise.sublist ?_ h
  rw [snapshot]
  induction properties.overrides with
  | nil => exact .slnil
  | cons first rest ih =>
    rcases htop : first.2.getLast? with - | top
    · simp only [List.filterMap_cons, htop, Option.map_none, List.map_cons]
      exact .cons _ ih
    · simp only [List.filterMap_cons, htop, Option.map_some, List.map_cons]
      exact ih.cons_cons _

/-- A snapshot lists what is in effect. -/
theorem Ordered.mem_snapshot {properties : Properties} (h : properties.Ordered)
    (key value : String) :
    (key, value) ∈ properties.snapshot ↔ properties.get? key = some value := by
  rw [snapshot, List.mem_filterMap, get?]
  constructor
  · rintro ⟨entry, hm, htop⟩
    obtain ⟨top, hlast, heq⟩ := Option.map_eq_some_iff.1 htop
    obtain ⟨rfl, rfl⟩ := Prod.mk.inj heq
    rw [h.stack_of_mem hm, hlast]
    rfl
  · intro hget
    obtain ⟨top, hlast, rfl⟩ := Option.map_eq_some_iff.1 hget
    have hne : properties.stack key ≠ [] := fun hnil => by
      rw [hnil] at hlast
      cases hlast
    exact ⟨(key, properties.stack key), mem_of_stack hne, by simp [hlast]⟩

/-! ## Keys that are set -/

/-- A key set to a value, with the number of the scope. -/
structure Setting where
  scope : ScopeId
  key : String
  value : String
  deriving DecidableEq, Inhabited

/-- The override that a setting is for a key. -/
def Setting.override? (key : String) (setting : Setting) : Option Override :=
  if setting.key = key then some ⟨setting.scope, setting.value⟩ else none

/-- The store holds these settings, oldest first: the stack of a key has those of the key. -/
structure Mirrors (settings : List Setting) (properties : Properties) : Prop where
  ordered : properties.Ordered
  inUse : ∀ entry ∈ properties.overrides, entry.2 ≠ []
  stacked : ∀ key, properties.stack key = settings.filterMap (Setting.override? key)

theorem Mirrors.empty : Mirrors [] empty :=
  ⟨List.Pairwise.nil, fun _ hm => absurd hm List.not_mem_nil, fun _ => rfl⟩

theorem Mirrors.set {settings : List Setting} {properties : Properties}
    (h : Mirrors settings properties) (scope : ScopeId) (key value : String) :
    Mirrors (settings ++ [⟨scope, key, value⟩]) (properties.set scope key value) := by
  refine ⟨h.ordered.set scope key value, fun entry hm => ?_, fun other => ?_⟩
  · rcases mem_pushOn hm with hm | ⟨stack, rfl, -⟩
    · exact h.inUse entry hm
    · simp
  · rw [h.ordered.stack_set, List.filterMap_append, h.stacked]
    split
    · next heq => simp [Setting.override?, heq]
    · next hne => simp [Setting.override?, hne]

/-- Where no other scope has its number, a scope takes back its own setting alone. -/
theorem Mirrors.release {before after : List Setting} {setting : Setting} {properties : Properties}
    (h : Mirrors (before ++ setting :: after) properties)
    (unique : ∀ other ∈ before ++ after, other.scope ≠ setting.scope) :
    Mirrors (before ++ after) (properties.release setting.scope setting.key) := by
  refine ⟨h.ordered.release _ _, fun kept hm => ?_, fun other => ?_⟩
  · obtain ⟨entry, hentry, hkept⟩ := List.mem_filterMap.1 hm
    exact (left_part (h.inUse entry hentry) hkept).2
  · rw [h.ordered.stack_release, h.stacked, List.filterMap_append, List.filterMap_append]
    split
    · next heq =>
      have hown : setting.override? other = some ⟨setting.scope, setting.value⟩ := by
        simp [Setting.override?, heq]
      have hothers : ∀ {settings : List Setting}, (∀ one ∈ settings, one.scope ≠ setting.scope) →
          (settings.filterMap (Setting.override? other)).filter (·.scope != setting.scope) =
            settings.filterMap (Setting.override? other) := by
        intro settings hne
        refine List.filter_eq_self.2 fun top htop => ?_
        obtain ⟨one, hone, hoverride⟩ := List.mem_filterMap.1 htop
        rw [Setting.override?] at hoverride
        split at hoverride <;> cases hoverride
        exact bne_iff_ne.2 (hne one hone)
      rw [List.filterMap_cons_some hown, List.filter_append, List.filter_cons,
        hothers fun one hm => unique one (List.mem_append_left _ hm),
        hothers fun one hm => unique one (List.mem_append_right _ hm)]
      simp
    · next hne => rw [List.filterMap_cons_none (by simp [Setting.override?, hne])]

/-! ## What threads share -/

/-- The guard of a scope, which ends it. -/
structure Guard where
  scope : ScopeId
  key : String
  deriving DecidableEq, Inhabited

/-- What threads work on that open and end scopes. -/
structure Shared where
  properties : Properties
  /-- The number of the next scope. -/
  nextScope : ScopeId
  /-- The number that a thread has drawn for a scope whose key it has not set yet. -/
  drawn : ThreadId → Option ScopeId
  /-- The guards that are held, in the order in which their keys were set. -/
  guards : List Guard

/-- A step of a thread. -/
inductive Event where
  /-- The thread draws the number of a scope. -/
  | draw (thread : ThreadId)
  /-- The thread sets the key of its scope and has the guard from now on. -/
  | set (thread : ThreadId) (key value : String)
  /-- Some thread drops the guard at a position. -/
  | drop (position : Nat)

/-- Nothing was done yet. -/
def Shared.start : Shared := ⟨.empty, 0, fun _ => none, []⟩

/-- What a step does; there are no steps of a thread out of turn, and none with a guard that is not
    held. -/
def Event.perform : Event → Shared → Option Shared
  | draw thread, shared =>
    match shared.drawn thread with
    | some _ => none
    | none => some { shared with
        nextScope := shared.nextScope + 1
        drawn := fun other => if other = thread then some shared.nextScope else shared.drawn other }
  | set thread key value, shared =>
    match shared.drawn thread with
    | none => none
    | some scope => some { shared with
        properties := shared.properties.set scope key value
        drawn := fun other => if other = thread then none else shared.drawn other
        guards := shared.guards ++ [⟨scope, key⟩] }
  | drop position, shared =>
    match shared.guards[position]? with
    | none => none
    | some guard => some { shared with
        properties := shared.properties.release guard.scope guard.key
        guards := shared.guards.eraseIdx position }

/-- What the threads share after steps. -/
def Shared.after (shared : Shared) : List Event → Option Shared
  | [] => some shared
  | event :: rest => (event.perform shared).bind (after · rest)

/-- The keys set and their values, of those whose guards are held, after one more step. -/
def Event.live : Event → List (String × String) → List (String × String)
  | draw _, live => live
  | set _ key value, live => live ++ [(key, value)]
  | drop position, live => live.eraseIdx position

/-- The keys set and their values, of those whose guards are held, oldest first. -/
def liveAfter (events : List Event) : List (String × String) :=
  events.foldl (fun live event => event.live live) []

/-- What the threads share after these settings, by those whose guards are held. -/
structure Follows (settings : List Setting) (shared : Shared) : Prop where
  mirrors : Mirrors settings shared.properties
  guards : shared.guards = settings.map fun setting => ⟨setting.scope, setting.key⟩
  distinct : (settings.map Setting.scope).Nodup
  issued : ∀ setting ∈ settings, setting.scope < shared.nextScope
  /-- The numbers drawn for scopes to come are those of no others. -/
  drawn : ∀ {thread scope}, shared.drawn thread = some scope → scope < shared.nextScope ∧
    (∀ setting ∈ settings, setting.scope ≠ scope) ∧
      ∀ other, shared.drawn other = some scope → other = thread

theorem Follows.start : Follows [] .start where
  mirrors := .empty
  guards := rfl
  distinct := List.nodup_nil
  issued := fun _ hm => absurd hm List.not_mem_nil
  drawn := fun h => by cases h

/-- What a setting shows, apart from its number. -/
def Setting.entry (setting : Setting) : String × String := (setting.key, setting.value)

/-- The list around a position. -/
theorem cut_of_getElem? {α : Type} {items : List α} {position : Nat} {item : α}
    (h : items[position]? = some item) :
    items = items.take position ++ item :: items.drop (position + 1) := by
  obtain ⟨hlt, rfl⟩ := List.getElem?_eq_some_iff.1 h
  rw [← List.drop_eq_getElem_cons hlt, List.take_append_drop]

namespace Follows

variable {shared : Shared} {settings : List Setting} {thread : ThreadId} {scope : ScopeId}

/-- The number that is drawn is above all that were given out before. -/
theorem draw (h : Follows settings shared) (thread : ThreadId) :
    Follows settings { shared with
      nextScope := shared.nextScope + 1
      drawn := fun other => if other = thread then some shared.nextScope
        else shared.drawn other } := by
  refine ⟨h.mirrors, h.guards, h.distinct, ?_, ?_⟩
  · exact fun setting hm => Nat.lt_succ_of_lt (h.issued setting hm)
  · intro other scope hdrawn
    simp only at hdrawn ⊢
    split at hdrawn
    · next hother =>
      cases hdrawn
      refine ⟨Nat.lt_succ_self _, fun setting hm => Nat.ne_of_lt (h.issued setting hm), ?_⟩
      intro third hthird
      split at hthird
      · next hthread => exact hthread.trans hother.symm
      · exact absurd (h.drawn hthird).1 (Nat.lt_irrefl _)
    · obtain ⟨hlt, hsettings, honly⟩ := h.drawn hdrawn
      refine ⟨Nat.lt_succ_of_lt hlt, hsettings, fun third hthird => ?_⟩
      split at hthird
      · cases hthird
        exact absurd hlt (Nat.lt_irrefl _)
      · exact honly third hthird

/-- The setting comes last, whatever its number is. -/
theorem set (h : Follows settings shared) (drawn : shared.drawn thread = some scope)
    (key value : String) :
    Follows (settings ++ [⟨scope, key, value⟩]) { shared with
      properties := shared.properties.set scope key value
      drawn := fun other => if other = thread then none else shared.drawn other
      guards := shared.guards ++ [⟨scope, key⟩] } := by
  obtain ⟨hlt, hsettings, honly⟩ := h.drawn drawn
  have hall : ∀ {P : Setting → Prop}, (∀ setting ∈ settings, P setting) → P ⟨scope, key, value⟩ →
      ∀ setting ∈ settings ++ [⟨scope, key, value⟩], P setting := by
    intro P hearlier hlast setting hm
    rcases List.mem_append.1 hm with hm | hm
    · exact hearlier setting hm
    · exact List.mem_singleton.1 hm ▸ hlast
  refine ⟨h.mirrors.set scope key value, ?_, ?_, hall h.issued hlt, ?_⟩
  · rw [h.guards, List.map_append]
    rfl
  · rw [List.map_append]
    refine List.nodup_append.2 ⟨h.distinct, List.pairwise_singleton _ _, ?_⟩
    intro one hone other hother heq
    obtain ⟨setting, hm, rfl⟩ := List.mem_map.1 hone
    rw [List.map_singleton, List.mem_singleton] at hother
    exact hsettings setting hm (heq.trans hother)
  · intro other scope' hdrawn
    simp only at hdrawn ⊢
    split at hdrawn
    · cases hdrawn
    · next hne =>
      obtain ⟨hlt', hsettings', honly'⟩ := h.drawn hdrawn
      have hapart : scope ≠ scope' := fun heq => hne (honly other (heq ▸ hdrawn))
      refine ⟨hlt', hall hsettings' hapart, fun third hthird => ?_⟩
      split at hthird
      · cases hthird
      · exact honly' third hthird

/-- The setting of the guard goes, and the ones around it stay. -/
theorem drop {before after : List Setting} {setting : Setting}
    (h : Follows (before ++ setting :: after) shared) :
    Follows (before ++ after) { shared with
      properties := shared.properties.release setting.scope setting.key
      guards := (before ++ after).map fun setting => ⟨setting.scope, setting.key⟩ } := by
  have hsub : ∀ other ∈ before ++ after, other ∈ before ++ setting :: after := by
    intro other hm
    rcases List.mem_append.1 hm with hm | hm
    · exact List.mem_append_left _ hm
    · exact List.mem_append_right _ (List.mem_cons_of_mem _ hm)
  have hdistinct := h.distinct
  rw [List.map_append, List.map_cons, List.nodup_middle, ← List.map_append] at hdistinct
  obtain ⟨hother, hrest⟩ := List.nodup_cons.1 hdistinct
  have unique : ∀ other ∈ before ++ after, other.scope ≠ setting.scope :=
    fun other hm heq => hother (heq ▸ List.mem_map_of_mem hm)
  refine ⟨h.mirrors.release unique, rfl, hrest, fun other hm => h.issued other (hsub other hm), ?_⟩
  intro thread scope hdrawn
  obtain ⟨hlt, hsettings, honly⟩ := h.drawn hdrawn
  exact ⟨hlt, fun other hm => hsettings other (hsub other hm), honly⟩

end Follows

/-- A step of any thread leads from settings to those that are live after it. -/
theorem Event.follows {event : Event} {shared after : Shared} {settings : List Setting}
    (h : Follows settings shared) (step : event.perform shared = some after) :
    ∃ settings', Follows settings' after ∧
      settings'.map Setting.entry = event.live (settings.map Setting.entry) := by
  cases event with
  | draw thread =>
    simp only [perform] at step
    split at step <;> cases step
    exact ⟨settings, h.draw thread, rfl⟩
  | set thread key value =>
    simp only [perform] at step
    split at step
    · cases step
    · next scope hscope =>
      cases step
      exact ⟨_, h.set hscope key value, by rw [List.map_append]; rfl⟩
  | drop position =>
    simp only [perform] at step
    split at step
    · cases step
    · next guard hguard =>
      cases step
      rw [h.guards, List.getElem?_map] at hguard
      obtain ⟨setting, hsetting, rfl⟩ := Option.map_eq_some_iff.1 hguard
      have hcut := cut_of_getElem? hsetting
      have herase : ∀ {α : Type} (view : Setting → α), (settings.map view).eraseIdx position =
          (settings.take position ++ settings.drop (position + 1)).map view := by
        intro α view
        rw [List.eraseIdx_eq_take_drop_succ, ← List.map_take, ← List.map_drop, List.map_append]
      rw [h.guards, herase]
      exact ⟨_, (hcut ▸ h).drop, (herase Setting.entry).symm⟩

/-- So do steps in a row. -/
theorem Follows.after {events : List Event} {shared last : Shared} {settings : List Setting}
    (h : Follows settings shared) (run : shared.after events = some last) :
    ∃ settings', Follows settings' last ∧ settings'.map Setting.entry =
      events.foldl (fun live event => event.live live) (settings.map Setting.entry) := by
  induction events generalizing shared settings with
  | nil =>
    cases run
    exact ⟨settings, h, rfl⟩
  | cons event rest ih =>
    obtain ⟨middle, step, run⟩ := Option.bind_eq_some_iff.1 run
    obtain ⟨settings', hmiddle, hlive⟩ := event.follows h step
    obtain ⟨settings'', hlast, hlive'⟩ := ih hmiddle run
    exact ⟨settings'', hlast, by rw [hlive', hlive]; rfl⟩

/-! ## What the store shows -/

/-- What can be read from a store in which these keys are set to these values, oldest first. -/
structure Shows (live : List (String × String)) (properties : Properties) : Prop where
  /-- The value of a key is the one set last; a key that is not set has none. -/
  latest : ∀ key, properties.get? key = live.reverse.lookup key
  /-- A snapshot lists every key with its value, and nothing else. -/
  listed : ∀ key value,
    (key, value) ∈ properties.snapshot ↔ live.reverse.lookup key = some value
  /-- It lists each key once, in ascending order. -/
  ascending : properties.snapshot.Ascending
  /-- With nothing set nothing is left in the store. -/
  forgotten : live = [] → properties = .empty

/-- The last of the settings of a key. -/
theorem getLast?_filterMap_override (settings : List Setting) (key : String) :
    (settings.filterMap (Setting.override? key)).getLast?.map (·.value) =
      (settings.map Setting.entry).reverse.lookup key := by
  induction settings using List.reverseRecOn with
  | nil => rfl
  | append_singleton earlier last ih =>
    rw [List.filterMap_append, List.map_append, List.reverse_append]
    by_cases hkey : last.key = key
    · simp [Setting.override?, Setting.entry, hkey]
    · have hne : (key == last.key) = false := by simpa using Ne.symm hkey
      simpa [Setting.override?, Setting.entry, hkey, List.lookup_cons, hne] using ih

theorem Mirrors.shows {settings : List Setting} {properties : Properties}
    (h : Mirrors settings properties) : Shows (settings.map Setting.entry) properties := by
  have latest : ∀ key, properties.get? key =
      (settings.map Setting.entry).reverse.lookup key := by
    intro key
    rw [get?, h.stacked, getLast?_filterMap_override]
  refine ⟨latest, fun key value => ?_, h.ordered.ascending_snapshot, fun hnone => ?_⟩
  · rw [h.ordered.mem_snapshot, latest]
  · -- No entry has an empty stack, so there is no entry.
    obtain rfl := List.map_eq_nil_iff.1 hnone
    obtain ⟨overrides⟩ := properties
    refine congrArg Properties.mk (List.eq_nil_iff_forall_not_mem.2 fun entry hm => ?_)
    exact h.inUse entry hm ((h.ordered.stack_of_mem hm).symm.trans (h.stacked entry.1))

theorem Shared.after_append (shared : Shared) (events others : List Event) :
    shared.after (events ++ others) = (shared.after events).bind (after · others) := by
  induction events generalizing shared with
  | nil => rfl
  | cons event rest ih =>
    rw [List.cons_append, after, after, Option.bind_assoc]
    exact congrArg _ (funext ih)

/-- What the threads share shows the keys whose guards are held. -/
theorem shows_of_after {events : List Event} {shared : Shared}
    (run : Shared.start.after events = some shared) :
    Shows (liveAfter events) shared.properties ∧ shared.guards.length = (liveAfter events).length := by
  obtain ⟨settings, follows, hlive⟩ := Follows.start.after run
  have hlive : liveAfter events = settings.map Setting.entry := hlive.symm
  rw [hlive]
  exact ⟨follows.mirrors.shows, by rw [follows.guards, List.length_map, List.length_map]⟩

/-- **The most recent override wins**: after every step of every interleaving, with any keys, values
    and threads, the store shows the keys that were set and whose guards are still held. -/
theorem shows_after (events : List Event) (possible : (Shared.start.after events).isSome = true) :
    ∀ earlier, earlier <+: events → ∃ shared, Shared.start.after earlier = some shared ∧
      Shows (liveAfter earlier) shared.properties ∧
      shared.guards.length = (liveAfter earlier).length := by
  rintro earlier ⟨later, rfl⟩
  rw [Shared.after_append] at possible
  rcases hrun : Shared.start.after earlier with - | shared
  · rw [hrun] at possible
    cases possible
  · exact ⟨shared, rfl, shows_of_after hrun⟩

/-- Two threads that set one key the other way round than they drew their numbers, and a third scope;
    the guards are dropped out of order. -/
def overlapping : List Event :=
  [.draw 0, .draw 1, .set 1 "k" "first", .set 0 "k" "second", .draw 1, .set 1 "a" "third", .drop 0,
    .drop 1, .drop 0]

theorem overlapping_shows :
    (Shared.start.after overlapping).isSome = true ∧
      ∀ earlier, earlier <+: overlapping → ∃ shared, Shared.start.after earlier = some shared ∧
        Shows (liveAfter earlier) shared.properties ∧
        shared.guards.length = (liveAfter earlier).length := by
  have possible : (Shared.start.after overlapping).isSome = true := by decide +kernel
  exact ⟨possible, shows_after overlapping possible⟩

/-! ## The scopes of a machine -/

section Scopes

variable {σ : Type} {machine : Machine σ} {drawn : ThreadId → Option ScopeId} {guards : List Guard}
  {events : List Event}

/-- A machine that opens a scope takes two steps on what threads share. -/
theorem openScope_after (key value : String) (idle : drawn machine.thread = none) :
    (Shared.mk machine.properties machine.nextScope drawn guards).after
        [.draw machine.thread, .set machine.thread key value] =
      some ⟨(machine.openScope key value).2.properties, (machine.openScope key value).2.nextScope,
        drawn, guards ++ [⟨(machine.openScope key value).1, key⟩]⟩ := by
  simp only [Shared.after, Event.perform, idle, if_true, Option.bind_some, Machine.openScope]
  congr 2
  funext other
  split
  · next heq => rw [heq, idle]
  · rfl

/-- A machine that ends a scope drops its guard. -/
theorem closeScope_after {position : Nat} {guard : Guard} (held : guards[position]? = some guard) :
    (Shared.mk machine.properties machine.nextScope drawn guards).after [.drop position] =
      some ⟨(machine.closeScope guard.scope guard.key).properties, machine.nextScope, drawn,
        guards.eraseIdx position⟩ := by
  simp only [Shared.after, Event.perform, held, Option.bind_some, Machine.closeScope]

/-- The store of a machine shows the key of the scope that was opened last, whichever threads have
    opened and closed scopes before. -/
theorem openScope_shows (key value : String) (idle : drawn machine.thread = none)
    (reached : Shared.start.after events =
      some ⟨machine.properties, machine.nextScope, drawn, guards⟩) :
    Shows (liveAfter events ++ [(key, value)]) (machine.openScope key value).2.properties := by
  have run := Shared.start.after_append events
    [.draw machine.thread, .set machine.thread key value]
  rw [reached, Option.bind_some, openScope_after key value idle] at run
  have hlive : liveAfter (events ++ [.draw machine.thread, .set machine.thread key value]) =
      liveAfter events ++ [(key, value)] := by
    rw [liveAfter, List.foldl_append]
    rfl
  exact hlive ▸ (shows_of_after run).1

/-- When one of these scopes is closed, the store shows the keys of the other ones. -/
theorem closeScope_shows {position : Nat} {guard : Guard} (held : guards[position]? = some guard)
    (reached : Shared.start.after events =
      some ⟨machine.properties, machine.nextScope, drawn, guards⟩) :
    Shows ((liveAfter events).eraseIdx position)
      (machine.closeScope guard.scope guard.key).properties := by
  have run := Shared.start.after_append events [.drop position]
  rw [reached, Option.bind_some, closeScope_after held] at run
  have hlive : liveAfter (events ++ [.drop position]) = (liveAfter events).eraseIdx position := by
    rw [liveAfter, List.foldl_append]
    rfl
  exact hlive ▸ (shows_of_after run).1

end Scopes

end KotlinHarness.Properties
