import Mathlib.Data.List.Induction
import ServiceWiring.Proofs.Aggregation

/-!
# What the markers of a folder give

Every marker makes a service of the struct behind it, and the first one of a struct counts.  A
struct with a second marker is out, and so are all structs whose services have one name.

* `Aggregate.declared`, `Aggregate.markersOf` — the services that markers make;
* `Aggregate.Contested` — why the markers put a struct out;
* `Aggregate.Marked`, `Aggregate.marked_marks` — what is met and what is out behind all markers;
* `Aggregate.Blames` — every conflict is about a struct that is out.
-/

namespace ServiceWiring.Aggregate

variable {agg agg' : Aggregate} {services : List Service} {service : Service}
  {structName : String} {file : SourceFile} {a : Annotation}

/-! ## The services that markers make -/

/-- The service that a marker makes of the struct behind it: under the given name or that of the
    struct, without members, and mounted at a path if it is a router. -/
def markerService? (place : SourceFile × Annotation) : Option Service :=
  place.2.target.bind fun structName =>
    let made (given : Option String) (isRouter : Bool) (mountPath : String) : Service :=
      ⟨given.getD structName, structName, isRouter, mountPath, [], [], [],
        place.1.locate place.2.line⟩
    match place.2.directive with
    | .service given => some (made given false "")
    | .router given mountPath => some (made given true mountPath)
    | _ => none

theorem markerService?_eq (place : SourceFile × Annotation) :
    markerService? place = place.2.target.bind fun structName =>
      serviceOf? structName (place.1.locate place.2.line) place.2.directive := by
  rfl

/-- The services that markers make, one for each marker. -/
def declared (places : List (SourceFile × Annotation)) : List Service :=
  places.filterMap markerService?

/-- The services that the markers of a struct make. -/
def markersOf (places : List (SourceFile × Annotation)) (structName : String) : List Service :=
  (declared places).filter (·.structName == structName)

theorem mem_markersOf_iff {places : List (SourceFile × Annotation)} :
    service ∈ markersOf places structName ↔
      (∃ place ∈ places, markerService? place = some service) ∧
        service.structName = structName := by
  rw [markersOf, declared, List.mem_filter, List.mem_filterMap, beq_iff_eq]

/-- Reads the service that a marker makes. -/
def declare (agg : Aggregate) (service : Service) : Aggregate :=
  match agg.get? service.structName with
  | some existing =>
      agg.report service.structName service.loc (.repeatedMarker service.structName)
        (some existing.loc.origin)
  | none => agg.enter service

theorem addMarker_eq (agg : Aggregate) (file : SourceFile) (a : Annotation) :
    agg.addMarker file a = (markerService? (file, a)).elim agg agg.declare := by
  rw [markerService?_eq]
  unfold addMarker
  cases a.target with
  | none => rfl
  | some structName =>
      simp only [Option.bind_some]
      cases hservice : serviceOf? structName (file.locate a.line) a.directive with
      | none => rfl
      | some service =>
          have hname := structName_of_serviceOf? hservice
          have hloc := loc_of_serviceOf? hservice
          cases hget : agg.get? structName with
          | none => simp [declare, hname, hget]
          | some existing => simp [declare, hname, hloc, hget]

theorem markerService?_eq_none {place : SourceFile × Annotation}
    (h : place.2.directive.isMarker = false) : markerService? place = none := by
  unfold markerService?
  cases hd : place.2.directive with
  | service name => simp [hd] at h; cases h
  | router name mountPath => simp [hd] at h; cases h
  | inject dependency => simp
  | config spec => simp
  | route spec => simp

/-- Reading the markers is reading the services that they make. -/
theorem foldl_addMarker (places : List (SourceFile × Annotation)) (agg : Aggregate) :
    (places.filter fun (_, a) => a.directive.isMarker).foldl
        (fun agg (file, a) => agg.addMarker file a) agg
      = (declared places).foldl declare agg := by
  induction places generalizing agg with
  | nil => rfl
  | cons place places ih =>
      obtain ⟨file, a⟩ := place
      cases hmarker : a.directive.isMarker with
      | false =>
          rw [List.filter_cons_of_neg (by simp [hmarker]), ih, declared, declared,
            List.filterMap_cons_none (markerService?_eq_none hmarker)]
      | true =>
          rw [List.filter_cons_of_pos (by simp [hmarker]), List.foldl_cons, ih]
          dsimp only
          rw [addMarker_eq, declared, declared, List.filterMap_cons]
          cases markerService? (file, a) with
          | none => rfl
          | some service => rfl

theorem marked_eq (contributions : List Contribution) :
    marked contributions = (declared (placed contributions)).foldl declare {} :=
  foldl_addMarker _ _

/-! ## What is out behind the markers -/

/-- The service that the first marker of a struct makes. -/
def firstOf? (services : List Service) (structName : String) : Option Service :=
  services.find? (·.structName == structName)

/-- A struct has two markers, or another struct has a service of the same name. -/
def Contested (services : List Service) (structName : String) : Prop :=
  2 ≤ (services.filter (·.structName == structName)).length ∨
    ∃ other first first', other ≠ structName ∧ firstOf? services structName = some first ∧
      firstOf? services other = some first' ∧ first'.name = first.name

/-- What reading the services of some markers leads to: the first of each struct is met, and the
    contested ones are out. -/
structure Marked (services : List Service) (agg : Aggregate) : Prop where
  sound : agg.Sound
  met : ∀ structName, agg.get? structName = firstOf? services structName
  failed : ∀ structName, structName ∈ agg.failed ↔ Contested services structName

theorem firstOf?_concat (services : List Service) (service : Service) (structName : String) :
    firstOf? (services ++ [service]) structName
      = (firstOf? services structName).or
          (if service.structName == structName then some service else none) := by
  rw [firstOf?, List.find?_append, List.find?_singleton]
  rfl

theorem structName_of_firstOf? (h : firstOf? services structName = some service) :
    service.structName = structName :=
  eq_of_beq (List.find?_some h :)

theorem markers_of_firstOf?_none (h : firstOf? services structName = none) :
    services.filter (·.structName == structName) = [] := by
  rw [List.filter_eq_nil_iff]
  intro s hs
  exact List.find?_eq_none.mp h s hs

theorem markers_concat_of_ne (h : service.structName ≠ structName) :
    (services ++ [service]).filter (·.structName == structName)
      = services.filter (·.structName == structName) := by
  simp [List.filter_append, h]

/-- A second marker changes no service and puts its struct out. -/
theorem Marked.repeated (h : Marked services agg) {existing : Service}
    (hexisting : agg.get? service.structName = some existing) (loc : Location)
    (conflict : Conflict) (other : Option String) :
    Marked (services ++ [service]) (agg.report service.structName loc conflict other) := by
  have hfirst : ∀ structName,
      firstOf? (services ++ [service]) structName = firstOf? services structName := by
    intro structName
    rw [firstOf?_concat]
    cases hstruct : firstOf? services structName with
    | some first => rfl
    | none =>
        -- a struct without a marker so far is not that of this marker
        have hne : service.structName ≠ structName := by
          rintro rfl
          rw [h.met, hstruct] at hexisting
          cases hexisting
        simp [hne]
  refine ⟨h.sound.report hexisting loc conflict other, ?_, ?_⟩
  · intro structName
    rw [hfirst]
    exact h.met structName
  · intro structName
    show structName ∈ agg.failed ++ [service.structName] ↔ _
    rw [List.mem_append, List.mem_singleton, h.failed]
    simp only [Contested, hfirst]
    by_cases hstruct : service.structName = structName
    · subst hstruct
      rw [h.met] at hexisting
      have hone : existing ∈ services.filter (·.structName == service.structName) :=
        List.mem_filter.mpr ⟨List.mem_of_find?_eq_some hexisting,
          beq_iff_eq.mpr (structName_of_firstOf? hexisting)⟩
      have htwo : 2 ≤ ((services ++ [service]).filter
          (·.structName == service.structName)).length := by
        have hpos := List.length_pos_of_mem hone
        simp only [List.filter_append, List.filter_singleton, beq_self_eq_true, cond_true,
          List.length_append, List.length_singleton]
        omega
      exact ⟨fun _ => Or.inl htwo, fun _ => Or.inr rfl⟩
    · rw [markers_concat_of_ne hstruct]
      simp [Ne.symm hstruct]

theorem mem_failed_enter : structName ∈ (agg.enter service).failed ↔ structName ∈ agg.failed ∨
    ∃ owner, (agg.met.filter fun s => s.name == service.name).getLast? = some owner ∧
      (structName = owner.structName ∨ structName = service.structName) := by
  cases howner : (agg.met.filter fun s => s.name == service.name).getLast? with
  | none => simp [Aggregate.enter, howner]
  | some owner =>
      rw [enter_of_owner howner]
      simp [Aggregate.report]

theorem firstOf?_concat_of_some {first : Service} (h : firstOf? services structName = some first)
    (service : Service) : firstOf? (services ++ [service]) structName = some first := by
  rw [firstOf?_concat, h]
  rfl

theorem firstOf?_concat_of_ne (h : structName ≠ service.structName) :
    firstOf? (services ++ [service]) structName = firstOf? services structName := by
  simp [firstOf?_concat, Ne.symm h]

/-- The first marker of a struct contests it and the structs of the same name. -/
theorem contested_concat (hnew : firstOf? services service.structName = none) :
    Contested (services ++ [service]) structName ↔ Contested services structName ∨
      ∃ other first, firstOf? services other = some first ∧ first.name = service.name ∧
        (structName = other ∨ structName = service.structName) := by
  have hself : firstOf? (services ++ [service]) service.structName = some service := by
    simp [firstOf?_concat, hnew]
  have hne : ∀ {other first}, firstOf? services other = some first →
      other ≠ service.structName := by
    rintro other first hfirst rfl
    cases hnew.symm.trans hfirst
  constructor
  · rintro (hcount | ⟨other, first, first', hdistinct, hfirst, hfirst', hname⟩)
    · by_cases hstruct : structName = service.structName
      · -- this marker is the only one of its struct
        subst hstruct
        simp [List.filter_append, markers_of_firstOf?_none hnew] at hcount
      · rw [markers_concat_of_ne (Ne.symm hstruct)] at hcount
        exact Or.inl (Or.inl hcount)
    · by_cases hstruct : structName = service.structName
      · subst hstruct
        rw [firstOf?_concat_of_ne hdistinct] at hfirst'
        obtain rfl := Option.some.inj (hself.symm.trans hfirst)
        exact Or.inr ⟨other, first', hfirst', hname, Or.inr rfl⟩
      · rw [firstOf?_concat_of_ne hstruct] at hfirst
        by_cases hother : other = service.structName
        · subst hother
          obtain rfl := Option.some.inj (hself.symm.trans hfirst')
          exact Or.inr ⟨structName, first, hfirst, hname.symm, Or.inl rfl⟩
        · rw [firstOf?_concat_of_ne hother] at hfirst'
          exact Or.inl (Or.inr ⟨other, first, first', hdistinct, hfirst, hfirst', hname⟩)
  · rintro ((hcount | ⟨other, first, first', hdistinct, hfirst, hfirst', hname⟩) |
      ⟨other, first, hfirst, hname, rfl | rfl⟩)
    · refine Or.inl (Nat.le_trans hcount ?_)
      rw [List.filter_append, List.length_append]
      exact Nat.le_add_right _ _
    · exact Or.inr ⟨other, first, first', hdistinct, firstOf?_concat_of_some hfirst service,
        firstOf?_concat_of_some hfirst' service, hname⟩
    · exact Or.inr ⟨service.structName, first, service, Ne.symm (hne hfirst),
        firstOf?_concat_of_some hfirst service, hself, hname.symm⟩
    · exact Or.inr ⟨other, service, first, hne hfirst, hself,
        firstOf?_concat_of_some hfirst service, hname⟩

/-- The first marker of a struct makes its service, and puts it out together with those of the same
    name.  Only the last of these is put out at this point: the others are out by then. -/
theorem Marked.enter (h : Marked services agg) (hnew : agg.get? service.structName = none) :
    Marked (services ++ [service]) (agg.enter service) := by
  have hnone : firstOf? services service.structName = none := (h.met _).symm.trans hnew
  refine ⟨h.sound.enter hnew, ?_, ?_⟩
  · intro structName
    rw [get?_enter, h.met, firstOf?_concat]
  · intro structName
    rw [mem_failed_enter, contested_concat hnone, h.failed]
    constructor
    · rintro (hcontested | ⟨owner, howner, hstruct⟩)
      · exact Or.inl hcontested
      · obtain ⟨hmet, hname⟩ := List.mem_filter.mp (List.mem_of_getLast? howner)
        exact Or.inr ⟨owner.structName, owner, (h.met _).symm.trans (h.sound.unique owner hmet),
          eq_of_beq hname, hstruct⟩
    · rintro (hcontested | ⟨other, first, hfirst, hname, hstruct⟩)
      · exact Or.inl hcontested
      · have hmem : first ∈ agg.met.filter fun s => s.name == service.name :=
          List.mem_filter.mpr ⟨List.mem_of_find?_eq_some ((h.met other).trans hfirst),
            beq_iff_eq.mpr hname⟩
        have howner := List.getLast?_eq_some_getLast (List.ne_nil_of_mem hmem)
        generalize List.getLast _ _ = owner at howner
        obtain ⟨hmet, hsame⟩ := List.mem_filter.mp (List.mem_of_getLast? howner)
        have hfirst' := (h.met _).symm.trans (h.sound.unique owner hmet)
        rcases hstruct with rfl | hstruct
        · by_cases hlast : structName = owner.structName
          · exact Or.inr ⟨owner, howner, Or.inl hlast⟩
          · -- an earlier one of the same name is contested by the last one already
            exact Or.inl (Or.inr ⟨owner.structName, first, owner, Ne.symm hlast, hfirst, hfirst',
              (eq_of_beq hsame).trans hname.symm⟩)
        · exact Or.inr ⟨owner, howner, Or.inr hstruct⟩

theorem Marked.declare (h : Marked services agg) (service : Service) :
    Marked (services ++ [service]) (agg.declare service) := by
  unfold Aggregate.declare
  cases hget : agg.get? service.structName with
  | some existing => exact h.repeated hget _ _ _
  | none => exact h.enter hget

theorem marked_empty : Marked [] {} := by
  refine ⟨sound_empty, fun _ => rfl, ?_⟩
  intro structName
  simp [Contested, firstOf?]

/-- Behind all markers the first service of each struct is met, and the contested ones are out. -/
theorem marked_marks (contributions : List Contribution) :
    Marked (declared (placed contributions)) (marked contributions) := by
  rw [marked_eq]
  induction declared (placed contributions) using List.reverseRecOn with
  | nil => exact marked_empty
  | append_singleton services service ih =>
      rw [List.foldl_append]
      exact ih.declare service

/-- The services that markers make have no fields and no endpoints. -/
theorem bare_of_mem_declared {places : List (SourceFile × Annotation)}
    (h : service ∈ declared places) :
    service.fields = [] ∧ service.endpoints = [] ∧ service.imports = [] := by
  obtain ⟨place, -, hservice⟩ := List.mem_filterMap.mp h
  obtain ⟨structName, -, hservice⟩ := Option.bind_eq_some_iff.mp hservice
  dsimp only at hservice
  split at hservice
  · rw [← Option.some.inj hservice]
    exact ⟨rfl, rfl, rfl⟩
  · rw [← Option.some.inj hservice]
    exact ⟨rfl, rfl, rfl⟩
  · cases hservice

/-! ## Conflicts are about structs that are out -/

/-- Every conflict names the service of a struct that is out. -/
def Blames (agg : Aggregate) : Prop :=
  ∀ name, agg.Disputes name →
    ∃ structName ∈ agg.failed, ∃ s, agg.get? structName = some s ∧ s.name = name

theorem Blames.report (h : agg.Blames) (hservice : agg.get? structName = some service)
    (loc : Location) (conflict : Conflict) (other : Option String) :
    (agg.report structName loc conflict other).Blames := by
  rintro name ⟨loc', message, other', hissue⟩
  rcases List.mem_append.mp hissue with hissue | hissue
  · obtain ⟨out, hout, s, hs, hname⟩ := h name ⟨loc', message, other', hissue⟩
    exact ⟨out, List.mem_append_left _ hout, s, hs, hname⟩
  · rw [hservice] at hissue
    obtain ⟨-, rfl, -, -⟩ := Issue.conflict.inj (List.mem_singleton.mp hissue)
    exact ⟨structName, List.mem_append_right _ (List.mem_singleton_self _), service, hservice, rfl⟩

theorem Blames.modify (h : agg.Blames) {f : Service → Service} (hf : ∀ s : Service, s.Extends (f s))
    (structName : String) : (agg.modify structName f).Blames := by
  intro name hdispute
  obtain ⟨out, hout, s, hs, rfl⟩ := h name hdispute
  obtain ⟨s', hs', hext⟩ := (grows_modify agg hf structName).services out s hs
  exact ⟨out, hout, s', hs', hext.name⟩

theorem Blames.enter (h : agg.Blames) (hnew : agg.get? service.structName = none) :
    (agg.enter service).Blames := by
  cases howner : (agg.met.filter fun s => s.name == service.name).getLast? with
  | none =>
      have hissues : (agg.enter service).issues = agg.issues := by
        simp [Aggregate.enter, howner]
      rintro name ⟨loc, message, other, hissue⟩
      rw [hissues] at hissue
      obtain ⟨out, hout, s, hs, hname⟩ := h name ⟨loc, message, other, hissue⟩
      exact ⟨out, mem_failed_enter.mpr (Or.inl hout), s, get?_enter_of_get? hs service, hname⟩
  | some owner =>
      -- one conflict is added, about the service that was entered
      have hself : Aggregate.get? ⟨agg.met ++ [service], agg.failed ++ [owner.structName],
          agg.issues⟩ service.structName = some service := by
        have hentered := get?_enter_self hnew
        rw [enter_of_owner howner] at hentered
        exact hentered
      rw [enter_of_owner howner]
      refine Blames.report ?_ hself _ _ _
      intro name hdispute
      obtain ⟨out, hout, s, hs, hname⟩ := h name hdispute
      have hkept := get?_enter_of_get? hs service
      rw [enter_of_owner howner] at hkept
      exact ⟨out, List.mem_append_left _ hout, s, hkept, hname⟩

theorem Blames.memberStep (h : agg.Blames) (hstep : MemberStep file a agg agg') :
    agg'.Blames := by
  cases hstep with
  | stay => exact h
  | conflict hservice conflict other => exact h.report hservice _ conflict other
  | warning directive reason =>
      rintro name ⟨loc, message, other, hissue⟩
      rcases List.mem_append.mp hissue with hissue | hissue
      · exact h name ⟨loc, message, other, hissue⟩
      · cases List.mem_singleton.mp hissue
  | field _ _ _ _ => exact h.modify (fun s => s.extends_fields _) _
  | endpoint _ _ _ _ => exact h.modify (fun s => s.extends_endpoints _ _) _

theorem Blames.markerStep (h : agg.Blames) (hstep : MarkerStep file a agg agg') :
    agg'.Blames := by
  cases hstep with
  | stay => exact h
  | repeated hexisting conflict other => exact h.report hexisting _ conflict other
  | enter _ hservice hnew =>
      rw [← structName_of_serviceOf? hservice] at hnew
      exact h.enter hnew

/-- All conflicts of a folder are about structs that are out. -/
theorem blames_ofFiles (contributions : List Contribution) : (ofFiles contributions).Blames := by
  refine ofFiles_induction contributions ?_ ?_ ?_
  · rintro name ⟨loc, message, other, hissue⟩
    cases hissue
  · intro agg c a _ _ h
    exact h.markerStep (markerStep_addMarker agg c.file a)
  · intro agg c a _ _ h
    exact h.memberStep (memberStep_addMember agg c.file a)

end ServiceWiring.Aggregate
