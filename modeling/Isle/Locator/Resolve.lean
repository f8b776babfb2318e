import Isle.Go.Maps
import Isle.Go.Text

/-!
# From a selector to a location

`Resolve`, `ResolveLocation` and what they call, of `pkg/locator/locate.go`. The document of a
registry has an app for each of several selectors, and **the first selector that matches is taken,
in the order in which the map happens to be walked**. An app whose selector is the name itself has
no precedence. So which app is found is determined only if all that match lead to the same
(`orderIndependent_iff`).
-/

open Text

namespace Locator

/-- A text. -/
abbrev Str := List UInt8

/-- What is between a registry and a name. -/
def slash : UInt8 := 0x2F

/-- The registry of a name without one. -/
def defaultHost : Str := ascii "isle.dev"

/-- A registry, and the name of an app there. -/
structure Location where
  registry : Str
  name : Str
  deriving DecidableEq, Repr

/-- The kind of place that an app is at, and where it is there. -/
structure ResolvedLocation where
  type : Str
  location : Str
  deriving DecidableEq, Repr

/-- The registry is what is in front of the first slash. -/
def resolve (ref : Str) : Location :=
  if slash ∈ ref then ⟨ref.takeWhile (· ≠ slash), (ref.dropWhile (· ≠ slash)).tail⟩
  else ⟨defaultHost, ref⟩

/-- What a registry says of an app. -/
structure WellKnownApp where
  type : Str
  target : Str
  github : Str
  oci : Str
  deriving DecidableEq, Repr

/-- The short forms are brought into the long one. -/
def WellKnownApp.makeCanonical (wk : WellKnownApp) : WellKnownApp :=
  let wk := if wk.github ≠ [] then { wk with type := ascii "github", target := wk.github } else wk
  if wk.oci ≠ [] then { wk with type := ascii "oci", target := wk.oci } else wk

/-- The map `Apps`: its keys, and what is at each. A `null` of the document is a pointer to no app.
-/
structure WellKnown where
  selectors : Finset Str
  app : Str → Option WellKnownApp

/-- How a function of this package ends without a result. -/
inductive FetchError (E : Type*)
  /-- `ErrUnknownLocation`, with "unknown registry type" -/
  | unknownRegistryType (registry : Str)
  /-- `ErrUnknownLocation`, with "unknown registry" -/
  | unknownRegistry (registry : Str)
  /-- `ErrBadLocation`, with "app.hcl was not a file" -/
  | notAFile
  /-- "Unable to resolve" -/
  | unable (type location : Str)
  /-- An error of the GitHub client. -/
  | contents (e : E)
  /-- An error of the decoder. -/
  | decode (e : E)
  | panicked
  deriving DecidableEq, Repr

variable {E : Type*}

/-- All the apps of a document are there. -/
def NoNil (wk : WellKnown) : Prop := ∀ s ∈ wk.selectors, (wk.app s).isSome = true

instance (wk : WellKnown) : Decidable (NoNil wk) :=
  inferInstanceAs (Decidable (∀ s ∈ wk.selectors, _))

/-- The document with every app in its canonical form. -/
def WellKnown.canonical (wk : WellKnown) : WellKnown :=
  { wk with app := fun s ↦ (wk.app s).map WellKnownApp.makeCanonical }

/-- It is called for all apps, and panics at a pointer to none. -/
def WellKnown.makeCanonical (wk : WellKnown) : Except (FetchError E) WellKnown :=
  if NoNil wk then .ok wk.canonical else .error .panicked

/-- `regexp.Compile` and `MatchString`: none if the selector is no expression. -/
abbrev Regexp := Str → Option (Str → Bool)

/-- A selector is a name, a star or an expression. -/
def matchSelector (re : Regexp) (selector name : Str) : Bool :=
  if selector = ascii "*" ∨ selector = name then true
  else
    match re selector with
    | some matchString => matchString name
    | none => false

/-- The one registry that is known without being asked. -/
def detectLocation (loc : Location) : Except (FetchError E) ResolvedLocation :=
  if loc.registry = ascii "github.com" then .ok ⟨ascii "github", loc.name⟩
  else .error (.unknownRegistry loc.registry)

/-- Where an app is; the pointer is followed. -/
def locationOf (app : Option WellKnownApp) : Except (FetchError E) ResolvedLocation :=
  match app with
  | some app => .ok ⟨app.type, app.target⟩
  | none => .error .panicked

/-- The selectors are tried in the order of the map, and the first that fits is taken. -/
def resolveFromWellKnown (re : Regexp) (order : MapOrder Str) (loc : Location) (wk : WellKnown) :
    Except (FetchError E) ResolvedLocation :=
  match (order.keys wk.selectors).find? (matchSelector re · loc.name) with
  | some selector => locationOf (wk.app selector)
  | none => detectLocation loc

/-! ### Which selector is taken -/

variable {re : Regexp} {loc : Location} {wk : WellKnown}

theorem matchSelector_self (re : Regexp) (name : Str) : matchSelector re name name = true :=
  if_pos (.inr rfl)

/-- A selector that matches is taken if there is one. -/
theorem resolveFromWellKnown_cases (re : Regexp) (loc : Location) (wk : WellKnown)
    (order : MapOrder Str) :
    (∃ s ∈ wk.selectors, matchSelector re s loc.name = true ∧
      (resolveFromWellKnown re order loc wk : Except (FetchError E) _) = locationOf (wk.app s)) ∨
    ((∀ s ∈ wk.selectors, matchSelector re s loc.name = false) ∧
      (resolveFromWellKnown re order loc wk : Except (FetchError E) _) = detectLocation loc) := by
  rw [resolveFromWellKnown]
  cases hfind : (order.keys wk.selectors).find? (matchSelector re · loc.name) with
  | some s =>
    have hs := (order.mem_keys wk.selectors s).1 (List.mem_of_find?_eq_some hfind)
    exact .inl ⟨s, hs, by simpa using List.find?_some hfind, rfl⟩
  | none =>
    refine .inr ⟨fun s hs ↦ ?_, rfl⟩
    simpa using List.find?_eq_none.1 hfind s ((order.mem_keys wk.selectors s).2 hs)

/-- Each of them is taken in some order. -/
theorem resolveFromWellKnown_startingWith {s : Str} (hs : s ∈ wk.selectors)
    (hmatch : matchSelector re s loc.name = true) :
    (resolveFromWellKnown re (.startingWith s) loc wk : Except (FetchError E) _) =
      locationOf (wk.app s) := by
  rw [resolveFromWellKnown, MapOrder.keys_startingWith hs, List.find?_cons, hmatch]

/-- **The result is the same in every order, and that of the app with the name as its selector, if
there is one.** -/
structure OrderIndependent (E : Type*) (re : Regexp) (loc : Location) (wk : WellKnown) : Prop where
  same : ∀ o₁ o₂, (resolveFromWellKnown re o₁ loc wk : Except (FetchError E) _) =
    resolveFromWellKnown re o₂ loc wk
  exact : ∀ order app, loc.name ∈ wk.selectors → wk.app loc.name = some app →
    (resolveFromWellKnown re order loc wk : Except (FetchError E) _) = .ok ⟨app.type, app.target⟩

/-- **It is that exactly if the apps whose selectors match are all at one location.** -/
theorem orderIndependent_iff (re : Regexp) (loc : Location) (wk : WellKnown) :
    OrderIndependent E re loc wk ↔
      ∀ s₁ ∈ wk.selectors, ∀ s₂ ∈ wk.selectors, matchSelector re s₁ loc.name = true →
        matchSelector re s₂ loc.name = true →
          (locationOf (wk.app s₁) : Except (FetchError E) _) = locationOf (wk.app s₂) := by
  constructor
  · intro h s₁ h₁ s₂ h₂ hm₁ hm₂
    -- the order of the map may put either selector first
    rw [← resolveFromWellKnown_startingWith h₁ hm₁, h.same _ (.startingWith s₂),
      resolveFromWellKnown_startingWith h₂ hm₂]
  · intro h
    have hany : ∀ s ∈ wk.selectors, matchSelector re s loc.name = true → ∀ order,
        (resolveFromWellKnown re order loc wk : Except (FetchError E) _) =
          locationOf (wk.app s) := by
      intro s hs hm order
      rcases resolveFromWellKnown_cases (E := E) re loc wk order with
        ⟨s', hs', hm', heq⟩ | ⟨hnone, -⟩
      · rw [heq, h s' hs' s hs hm' hm]
      · simp [hnone s hs] at hm
    refine ⟨fun o₁ o₂ ↦ ?_, fun order app hmem happ ↦ ?_⟩
    · rcases resolveFromWellKnown_cases (E := E) re loc wk o₁ with
        ⟨s, hs, hm, heq⟩ | ⟨hnone, heq⟩
      · rw [heq, hany s hs hm o₂]
      · rcases resolveFromWellKnown_cases (E := E) re loc wk o₂ with
          ⟨s, hs, hm, -⟩ | ⟨-, heq'⟩
        · simp [hnone s hs] at hm
        · rw [heq, heq']
    · rw [hany loc.name hmem (matchSelector_self re _) order, happ]
      rfl

/-- A document with an app for `docker` and one for all names. -/
def twoApps : WellKnown where
  selectors := {ascii "*", ascii "docker"}
  app s :=
    if s = ascii "docker" then some ⟨ascii "github", ascii "lab47/docker/app.hcl", [], []⟩
    else some ⟨ascii "github", ascii "lab47/any/app.hcl", [], []⟩

/-- The app of all names may be taken for `docker`, whatever the expressions match. -/
theorem not_orderIndependent_twoApps :
    (∀ re, (resolveFromWellKnown re (.startingWith (ascii "*"))
        ⟨ascii "isle.dev", ascii "docker"⟩ twoApps : Except (FetchError Unit) _) =
          .ok ⟨ascii "github", ascii "lab47/any/app.hcl"⟩) ∧
      ∀ re, ¬ OrderIndependent Unit re ⟨ascii "isle.dev", ascii "docker"⟩ twoApps := by
  have hany : ∀ re, (resolveFromWellKnown re (.startingWith (ascii "*"))
      ⟨ascii "isle.dev", ascii "docker"⟩ twoApps : Except (FetchError Unit) _) =
        .ok ⟨ascii "github", ascii "lab47/any/app.hcl"⟩ := fun re ↦
    resolveFromWellKnown_startingWith (by decide) (if_pos (.inl rfl))
  refine ⟨hany, fun re h ↦ ?_⟩
  have hdocker := h.exact (.startingWith (ascii "*")) _ (by decide) rfl
  rw [hany] at hdocker
  exact absurd (congrArg ResolvedLocation.location (Except.ok.inj hdocker)) (by decide)

end Locator
