import NexaCore.Capability.Token

/-!
# Attenuation never widens authority

`Scope.isSubsetOf` is transitive, and a subset authorises no more requests. It is reflexive
except at a network endpoint that has no port, which is not even a subset of itself.
-/

namespace NexaCore.Capability

open TimeWindow Scope Bool List

/-! ## Paths -/

/-- The location is `root` or lies below it. -/
def Under (root location : List Char) : Prop := location = root ∨ (root ++ ['/']) <+: location

theorem Under.trans {p q r : List Char} (first : Under q r) (second : Under p q) : Under p r := by
  rcases second with rfl | below
  · exact first
  · rcases first with rfl | deeper
    · exact .inr below
    · exact .inr ((below.trans (prefix_append q ['/'])).trans deeper)

def pathRoot (path : List Char) : List Char := (stripSuffix path wildcard).getD path

variable {a b : List Char}

theorem pathIsSubset_of_some {root : List Char} (wild : stripSuffix b wildcard = some root) :
    pathIsSubset a b = true ↔ Under root (pathRoot a) := by
  unfold pathIsSubset pathRoot Under
  rw [wild]
  cases stripSuffix a wildcard with
  | none | some => simp

theorem pathIsSubset_of_none (exact' : stripSuffix b wildcard = none) :
    pathIsSubset a b = true ↔ a = b := by
  rw [pathIsSubset, exact']
  exact beq_iff_eq

theorem pathIsSubset_refl (a : List Char) : pathIsSubset a a = true := by
  cases wild : stripSuffix a wildcard with
  | none => exact (pathIsSubset_of_none wild).mpr rfl
  | some root =>
    rw [pathIsSubset_of_some wild, pathRoot, wild]
    exact .inl rfl

variable {c : List Char}

theorem pathIsSubset_trans (first : pathIsSubset a b = true) (second : pathIsSubset b c = true) :
    pathIsSubset a c = true := by
  cases wildC : stripSuffix c wildcard with
  | none =>
    obtain rfl := (pathIsSubset_of_none wildC).mp second
    exact first
  | some rootC =>
    rw [pathIsSubset_of_some wildC] at second ⊢
    cases wildB : stripSuffix b wildcard with
    | none =>
      obtain rfl := (pathIsSubset_of_none wildB).mp first
      exact second
    | some rootB =>
      rw [pathIsSubset_of_some wildB] at first
      rw [pathRoot, wildB] at second
      exact first.trans second

/-! ## Endpoints -/

theorem rsplitOnce_eq_none {c : Char} {s : List Char} : rsplitOnce c s = none ↔ c ∉ s := by
  induction s with
  | nil => simp [rsplitOnce]
  | cons x xs ih =>
    rw [rsplitOnce]
    cases later : rsplitOnce c xs with
    | none =>
      have absent := ih.mp later
      by_cases same : x = c
      · simp [same]
      · simp [same, absent, Ne.symm same]
    | some parts =>
      have present : c ∈ xs := by
        by_contra absent
        rw [ih.mpr absent] at later
        cases later
      simp [present]

theorem endpointIsSubset_refl : endpointIsSubset a a = true ↔ ':' ∈ a := by
  unfold endpointIsSubset
  cases parts : rsplitOnce ':' a with
  | none => simp [rsplitOnce_eq_none.mp parts]
  | some parts' =>
    have present : ':' ∈ a := by
      by_contra absent
      rw [rsplitOnce_eq_none.mpr absent] at parts
      cases parts
    simp [present]

theorem endpointIsSubset_trans (first : endpointIsSubset a b = true)
    (second : endpointIsSubset b c = true) : endpointIsSubset a c = true := by
  unfold endpointIsSubset at *
  cases partsA : rsplitOnce ':' a with
  | none => simp [partsA] at first
  | some partsA' =>
    cases partsB : rsplitOnce ':' b with
    | none => simp [partsA, partsB] at first
    | some partsB' =>
      cases partsC : rsplitOnce ':' c with
      | none => simp [partsB, partsC] at second
      | some partsC' =>
        simp only [partsA, partsB, partsC, and_eq_true, or_eq_true, beq_iff_eq]
          at first second ⊢
        grind

/-! ## Resources -/

theorem rangeIsSubset_refl (base len : UInt64) : rangeIsSubset base len base len = true := by
  simp [rangeIsSubset]

theorem rangeIsSubset_trans {aBase aLen bBase bLen cBase cLen : UInt64}
    (first : rangeIsSubset aBase aLen bBase bLen = true)
    (second : rangeIsSubset bBase bLen cBase cLen = true) :
    rangeIsSubset aBase aLen cBase cLen = true := by
  simp only [rangeIsSubset, ge_iff_le, and_eq_true, decide_eq_true_eq] at *
  exact ⟨UInt64.le_trans second.1 first.1, first.2.trans second.2⟩

namespace Resource

/-- The resources that are compared for equality. -/
def isExact : Resource → Bool
  | .model _ | .agent _ | .node _ | .ipcChannel _ | .pciDevice _ _ _ _ | .irqLine _ => true
  | _ => false

/-- `isSubsetOf` as a relation, by the kinds of the resources. -/
inductive Within : Resource → Resource → Prop where
  | any (r : Resource) : Within r .any
  | exact {r : Resource} (kind : r.isExact = true) : Within r r
  | filesystem {a b : String} (sub : pathIsSubset a.toList b.toList = true) :
      Within (.filesystem a) (.filesystem b)
  | network {a b : String} (sub : endpointIsSubset a.toList b.toList = true) :
      Within (.network a) (.network b)
  | mmioRegion {aBase aLen bBase bLen : UInt64} (sub : rangeIsSubset aBase aLen bBase bLen = true) :
      Within (.mmioRegion aBase aLen) (.mmioRegion bBase bLen)
  | dmaWindow {aBase aLen bBase bLen : UInt64} (sub : rangeIsSubset aBase aLen bBase bLen = true) :
      Within (.dmaWindow aBase aLen) (.dmaWindow bBase bLen)
  | framebuffer {aBase aLen bBase bLen : UInt64}
      (sub : rangeIsSubset aBase aLen bBase bLen = true) :
      Within (.framebuffer aBase aLen) (.framebuffer bBase bLen)

variable {a b : Resource}

theorem within_of_isSubsetOf (sub : a.isSubsetOf b = true) : a.Within b := by
  fun_cases Resource.isSubsetOf a b with
  | case1 => exact .any a
  | case2 => exact .filesystem sub
  | case3 => exact .network sub
  | case4 | case5 | case6 | case7 | case12 =>
    obtain rfl := eq_of_beq sub
    exact .exact rfl
  | case8 =>
    simp only [isSubsetOf, and_eq_true, beq_iff_eq] at sub
    obtain ⟨⟨⟨rfl, rfl⟩, rfl⟩, rfl⟩ := sub
    exact .exact rfl
  | case9 => exact .mmioRegion sub
  | case10 => exact .dmaWindow sub
  | case11 => exact .framebuffer sub
  | case13 => simp_all [isSubsetOf]

theorem isSubsetOf_of_within (within : a.Within b) : a.isSubsetOf b = true := by
  cases within with
  | any => cases a <;> rfl
  | exact kind => cases a <;> simp_all [isSubsetOf, isExact]
  | filesystem sub | network sub | mmioRegion sub | dmaWindow sub | framebuffer sub => exact sub

theorem isSubsetOf_trans {c : Resource} (first : a.isSubsetOf b = true)
    (second : b.isSubsetOf c = true) : a.isSubsetOf c = true := by
  apply isSubsetOf_of_within
  have within := within_of_isSubsetOf first
  cases within_of_isSubsetOf second with
  | any => exact .any a
  | exact => exact within
  | filesystem sub =>
    cases within with
    | exact kind => cases kind
    | filesystem sub' => exact .filesystem (pathIsSubset_trans sub' sub)
  | network sub =>
    cases within with
    | exact kind => cases kind
    | network sub' => exact .network (endpointIsSubset_trans sub' sub)
  | mmioRegion sub =>
    cases within with
    | exact kind => cases kind
    | mmioRegion sub' => exact .mmioRegion (rangeIsSubset_trans sub' sub)
  | dmaWindow sub =>
    cases within with
    | exact kind => cases kind
    | dmaWindow sub' => exact .dmaWindow (rangeIsSubset_trans sub' sub)
  | framebuffer sub =>
    cases within with
    | exact kind => cases kind
    | framebuffer sub' => exact .framebuffer (rangeIsSubset_trans sub' sub)

/-- The resource is not a network endpoint without a port. -/
def HasPort (r : Resource) : Prop := ∀ endpoint, r = .network endpoint → ':' ∈ endpoint.toList

theorem isSubsetOf_refl : a.isSubsetOf a = true ↔ a.HasPort := by
  cases a with
  | network endpoint =>
    simp only [HasPort, network.injEq, forall_eq']
    exact endpointIsSubset_refl
  | any => exact iff_of_true rfl fun _ other => by cases other
  | filesystem path =>
    exact iff_of_true (pathIsSubset_refl path.toList) fun _ other => by cases other
  | mmioRegion base len | dmaWindow base len | framebuffer base len =>
    exact iff_of_true (rangeIsSubset_refl base len) fun _ other => by cases other
  | model | agent | node | ipcChannel | pciDevice | irqLine =>
    refine iff_of_true (isSubsetOf_of_within (.exact rfl)) fun _ other => ?_
    cases other

end Resource

/-! ## Scopes -/

theorem TimeWindow.isSubsetOf_iff {w other : TimeWindow} : w.isSubsetOf other = true ↔
    other.notBefore ≤ w.notBefore ∧ w.notAfter ≤ other.notAfter := by
  simp [isSubsetOf]

namespace Scope

variable {a b : Scope}

theorem isSubsetOf_iff : a.isSubsetOf b = true ↔
    a.action = b.action ∧ a.resource.isSubsetOf b.resource = true ∧
      a.window.isSubsetOf b.window = true ∧ ∀ c ∈ b.caveats, c ∈ a.caveats := by
  unfold isSubsetOf
  split
  · simp_all
  · split
    · simp_all
    · split
      · simp_all
      · simp_all

theorem isSubsetOf_trans {c : Scope} (first : a.isSubsetOf b = true)
    (second : b.isSubsetOf c = true) : a.isSubsetOf c = true := by
  rw [isSubsetOf_iff] at *
  obtain ⟨action, resource, window, caveats⟩ := first
  obtain ⟨action', resource', window', caveats'⟩ := second
  rw [TimeWindow.isSubsetOf_iff] at *
  refine ⟨action.trans action', Resource.isSubsetOf_trans resource resource', ⟨?_, ?_⟩, ?_⟩
  · exact UInt64.le_trans window'.1 window.1
  · exact UInt64.le_trans window.2 window'.2
  · intro c mem
    exact caveats c (caveats' c mem)

theorem isSubsetOf_refl : a.isSubsetOf a = true ↔ a.resource.HasPort := by
  rw [isSubsetOf_iff, ← Resource.isSubsetOf_refl, TimeWindow.isSubsetOf_iff]
  simp

end Scope

/-! ## Requests -/

structure Request where
  action : Action
  resource : Resource
  instant : UInt64

/-- The request is one that the scope authorises, apart from its caveats. -/
def Scope.Authorises (s : Scope) (request : Request) : Prop :=
  request.action = s.action ∧ request.resource.isSubsetOf s.resource = true ∧
    s.window.contains request.instant = true

theorem Scope.Authorises.mono {a b : Scope} {request : Request} (authorised : a.Authorises request)
    (sub : a.isSubsetOf b = true) : b.Authorises request := by
  obtain ⟨action, resource, inside⟩ := authorised
  obtain ⟨sameAction, subResource, subWindow, -⟩ := isSubsetOf_iff.mp sub
  refine ⟨action.trans sameAction, Resource.isSubsetOf_trans resource subResource, ?_⟩
  rw [TimeWindow.isSubsetOf_iff] at subWindow
  simp only [TimeWindow.contains, and_eq_true, decide_eq_true_eq] at inside ⊢
  exact ⟨UInt64.le_trans subWindow.1 inside.1, UInt64.lt_of_lt_of_le inside.2 subWindow.2⟩

/-! ## Caveats -/

/-- The bound that a caveat puts on the end of a window. -/
def Caveat.closing? : Caveat → Option UInt64
  | .expiresAt t => some t
  | _ => none

/-- The bound that a caveat puts on the beginning of a window. -/
def Caveat.opening? : Caveat → Option UInt64
  | .notBefore t => some t
  | _ => none

/-- The window intersected with all the bounds of caveats. -/
def TimeWindow.intersect (w : TimeWindow) (caveats : List Caveat) : TimeWindow where
  notBefore := (caveats.filterMap Caveat.opening?).foldl max w.notBefore
  notAfter := (caveats.filterMap Caveat.closing?).foldl min w.notAfter

theorem TimeWindow.foldl_tighten (w : TimeWindow) (caveats : List Caveat) :
    caveats.foldl TimeWindow.tighten w = w.intersect caveats := by
  induction caveats generalizing w with
  | nil => rfl
  | cons caveat caveats ih =>
    rw [foldl_cons, ih]
    cases caveat with
    | expiresAt t =>
      have least : (if t < w.notAfter then t else w.notAfter) = min w.notAfter t := by
        show _ = if w.notAfter ≤ t then w.notAfter else t
        by_cases earlier : t < w.notAfter
        · rw [if_pos earlier, if_neg (UInt64.not_le.mpr earlier)]
        · rw [if_neg earlier, if_pos (UInt64.not_lt.mp earlier)]
      simp only [tighten, intersect, filterMap_cons, Caveat.closing?, Caveat.opening?,
        foldl_cons, ← least]
      split <;> rfl
    | notBefore t =>
      have greatest : (if t > w.notBefore then t else w.notBefore) = max w.notBefore t := by
        show _ = if w.notBefore ≤ t then t else w.notBefore
        by_cases later : w.notBefore < t
        · rw [if_pos later, if_pos (UInt64.le_of_lt later)]
        · have least : t ≤ w.notBefore := UInt64.not_lt.mp later
          rw [if_neg later]
          split
          · rename_i most
            exact UInt64.le_antisymm most least
          · rfl
      simp only [tighten, intersect, filterMap_cons, Caveat.closing?, Caveat.opening?,
        foldl_cons, ← greatest]
      split <;> rfl
    | boundToNode | boundToSession | custom => rfl

variable {s : Scope} {caveat : Caveat}

theorem Scope.mem_caveats_record {c : Caveat} :
    c ∈ (s.record caveat).caveats ↔ c ∈ s.caveats ∨ c = caveat := by
  unfold record
  split
  · simp
  · rename_i recorded
    rw [not_eq_true', not_eq_false, contains_iff_mem] at recorded
    exact ⟨.inl, fun either => either.elim id fun same => same ▸ recorded⟩

variable {t : Scope}

theorem applyCaveat_eq_ok (applied : applyCaveat s caveat = .ok t) :
    t.window = s.window.tighten caveat ∧ (∀ c ∈ s.caveats, c ∈ t.caveats) ∧
      caveat ∈ t.caveats ∧ t.isSubsetOf s = true := by
  unfold applyCaveat at applied
  simp only at applied
  split at applied
  · cases applied
  · split at applied
    · cases applied
    · rename_i sub
      rw [not_eq_true', not_eq_false] at sub
      obtain rfl := Except.ok.inj applied
      refine ⟨?_, fun c mem => ?_, ?_, sub⟩
      · unfold Scope.record
        split <;> rfl
      · exact mem_caveats_record.mpr (.inl mem)
      · exact mem_caveats_record.mpr (.inr rfl)

theorem applyCaveats_eq_ok {caveats : List Caveat} (applied : applyCaveats s caveats = .ok t) :
    t.window = s.window.intersect caveats ∧ (∀ c ∈ s.caveats, c ∈ t.caveats) ∧
      (∀ c ∈ caveats, c ∈ t.caveats) ∧ (t = s ∨ t.isSubsetOf s = true) := by
  induction caveats generalizing s with
  | nil =>
    obtain rfl : s = t := Except.ok.inj applied
    refine ⟨rfl, fun c mem => mem, fun c mem => ?_, .inl rfl⟩
    cases mem
  | cons caveat caveats ih =>
    rw [applyCaveats, foldlM_cons] at applied
    cases first : applyCaveat s caveat with
    | error e =>
      rw [first] at applied
      cases applied
    | ok child =>
      rw [first] at applied
      obtain ⟨window, kept, recorded, sub⟩ := applyCaveat_eq_ok first
      obtain ⟨window', kept', recorded', sub'⟩ := ih applied
      refine ⟨?_, fun c mem => kept' c (kept c mem), fun c mem => ?_, .inr ?_⟩
      · rw [window', window, ← foldl_tighten, ← foldl_tighten]
        rfl
      · rcases mem_cons.mp mem with rfl | mem
        · exact kept' c recorded
        · exact recorded' c mem
      · rcases sub' with rfl | sub'
        · exact sub
        · exact isSubsetOf_trans sub' sub

/-! ## Chains -/

theorem verifyChainLink_eq_ok {parent child : CapabilityToken}
    (accepted : verifyChainLink parent child = .ok ()) :
    child.payload.scope.isSubsetOf parent.payload.scope = true := by
  unfold verifyChainLink at accepted
  split at accepted
  · cases accepted
  · split at accepted
    · cases accepted
    · rename_i sub
      rw [not_eq_true', not_eq_false] at sub
      exact sub

/-- The last token of a chain is the first, or its scope is a subset of that of the first. -/
theorem chain_isSubsetOf {root : CapabilityToken} {rest : List CapabilityToken}
    (chain : (root :: rest).IsChain fun parent child => verifyChainLink parent child = .ok ()) :
    rest.getLastD root = root ∨
      (rest.getLastD root).payload.scope.isSubsetOf root.payload.scope = true := by
  induction rest generalizing root with
  | nil => exact .inl rfl
  | cons child rest ih =>
    obtain ⟨link, chain⟩ := isChain_cons_cons.mp chain
    have sub := verifyChainLink_eq_ok link
    rw [getLastD_cons]
    rcases ih chain with same | sub'
    · rw [same]
      exact .inr sub
    · exact .inr (isSubsetOf_trans sub' sub)

/-! ## Attenuation -/

/-- What attenuation promises about a scope. -/
structure Attenuates (a : Scope) : Prop where
  refl : a.isSubsetOf a = true
  trans : ∀ b c, a.isSubsetOf b = true → b.isSubsetOf c = true → a.isSubsetOf c = true
  sound : ∀ b, a.isSubsetOf b = true →
    (∀ request, a.Authorises request → b.Authorises request) ∧ ∀ c ∈ b.caveats, c ∈ a.caveats
  caveats : ∀ cs t, applyCaveats a cs = .ok t → t.isSubsetOf a = true ∧ (∀ c ∈ cs, c ∈ t.caveats) ∧
    t.window = a.window.intersect cs
  chain : ∀ root rest, root.payload.scope = a →
    (root :: rest).IsChain (fun parent child => verifyChainLink parent child = .ok ()) →
    (rest.getLastD root).payload.scope.isSubsetOf a = true

/-- The promise holds exactly for the scopes whose resource is not an endpoint without a
port. -/
theorem attenuates_iff_hasPort (a : Scope) : Attenuates a ↔ a.resource.HasPort := by
  constructor
  · intro attenuates
    exact isSubsetOf_refl.mp attenuates.refl
  · intro hasPort
    have itself := isSubsetOf_refl.mpr hasPort
    refine ⟨itself, fun b c => isSubsetOf_trans, fun b sub => ⟨fun request authorised =>
      authorised.mono sub, (isSubsetOf_iff.mp sub).2.2.2⟩, fun cs t applied => ?_,
      fun root rest same chain => ?_⟩
    · obtain ⟨window, -, recorded, rfl | sub⟩ := applyCaveats_eq_ok applied
      · exact ⟨itself, recorded, window⟩
      · exact ⟨sub, recorded, window⟩
    · subst same
      rcases chain_isSubsetOf chain with same | sub
      · rw [same]
        exact itself
      · exact sub

/-- A scope over an endpoint without a port. -/
def portless : Scope := ⟨.connect, .network "localhost", ⟨0, 100⟩, []⟩

/-- It is not a subset of itself, and every attenuation of it is rejected as one that would
broaden it. -/
theorem portless_not_attenuates :
    portless.isSubsetOf portless = false ∧ applyCaveats portless [] = .ok portless ∧
      applyCaveats portless [.expiresAt 50] =
        .error ⟨.attenuationViolation, "attenuation::apply_caveat::invariant_broken"⟩ ∧
      ¬Attenuates portless := by
  have notSubset : portless.isSubsetOf portless = false := by decide +kernel
  refine ⟨notSubset, rfl, by decide +kernel, fun attenuates => ?_⟩
  rw [attenuates.refl] at notSubset
  cases notSubset

end NexaCore.Capability
