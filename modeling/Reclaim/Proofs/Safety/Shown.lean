import Mathlib
import Reclaim.Label
import Reclaim.Proofs.Path.Prefix
import Reclaim.Proofs.Safety.Catalogs

/-!
# Shown paths are read back

A path below the home directory is shown with `~` in its place, and a directory that is configured
may be written in the same way.  The two readings are kept apart: the first cuts a text, the second
joins two.  What is cut out never stands alone, so behind `~` it is read from the home directory and
never in place of it; a path that is not below the home directory is absolute, so none of its own
names is taken for `~`.

## Main results

* `Catalog.components_expandHome`, `Catalog.expandHome_eq_self` : what a configured directory says.
* `Path.components_tilde` : what is written behind `~`.
* `Catalog.any_same_push` : whether a directory is known after it has been offered.
* `Catalog.forUser_shown` : a shown path can be typed back.
-/

namespace Reclaim

open Component

namespace Path

/-- What is written behind `~` is read as it stands. -/
theorem components_tilde {r : Path} (h : r.anchor = []) :
    (Path.mk ("~/" ++ r.text)).components = .name "~" :: r.components := by
  have hjoin : (Path.mk "~").join r = ⟨"~/" ++ r.text⟩ := by
    have htilde : ¬((Path.mk "~").text = "" ∨ (Path.mk "~").text.toList.getLast? = some '/') := by
      decide
    rw [join, if_neg (anchor_eq_nil_iff.mp h).1, if_neg htilde]
    rfl
  rw [← hjoin, components_join _ h]
  rfl

end Path

namespace Catalog

open Reclaim.Path

variable {top extra p : Path} {home : Option Path} {steps : List Component}

/-! ### Reading a configured directory -/

/-- A first component `~` is replaced by the home directory. -/
theorem components_expandHome (h : extra.components = .name "~" :: steps) :
    (expandHome top extra).components = top.components ++ steps := by
  have hwithin : extra.within ⟨"~"⟩ = true := by
    rw [within, List.isPrefixOf_iff_prefix, h]
    exact List.prefix_append [.name "~"] steps
  obtain ⟨rest, hrest⟩ := Option.isSome_iff_exists.mp (isSome_stripPrefix?_iff.mpr hwithin)
  obtain ⟨hanchor, hcomponents⟩ := components_stripPrefix? (by decide) hrest
  obtain rfl : steps = rest.components := by
    have htilde : (Path.mk "~").components = [.name "~"] := by decide
    rw [h, htilde, List.singleton_append, List.cons.injEq] at hcomponents
    exact hcomponents.2
  rw [expandHome, hrest, components_join top hanchor]

/-- Anything else is kept as it is written. -/
theorem expandHome_eq_self (h : extra.components.head? ≠ some (.name "~")) :
    expandHome top extra = extra := by
  have hnone : extra.stripPrefix? ⟨"~"⟩ = none := by
    rw [← Option.not_isSome_iff_eq_none, isSome_stripPrefix?_iff, within,
      List.isPrefixOf_iff_prefix]
    rintro ⟨rest, hrest⟩
    exact h (by rw [← hrest]; rfl)
  rw [expandHome, hnone]

/-- A shown path says the same once it has been read back. -/
theorem components_expandHome_shown (hhome : home ≠ some ⟨""⟩) (hp : p.isAbsolute = true) :
    (expandHome (home.getD ⟨""⟩) ⟨p.shown home⟩).components = p.components := by
  cases hcut : home.bind p.stripPrefix? with
  | none =>
    obtain ⟨rest, hrest⟩ := Safety.exists_components_of_isAbsolute hp
    rw [shown, hcut, expandHome_eq_self (by simp [hrest])]
  | some r =>
    obtain ⟨dir, rfl, hr⟩ := Option.bind_eq_some_iff.mp hcut
    have hdir : dir.text ≠ "" := fun he => hhome (by rw [← he])
    obtain ⟨hanchor, hcomponents⟩ := components_stripPrefix? hdir hr
    rw [shown, hcut, components_expandHome (components_tilde hanchor), hcomponents]
    rfl

/-! ### Offering a directory -/

/-- A directory that has been offered is known if it was known before or is accepted. -/
theorem any_same_push (home : Option Path) (c : Catalog) (r : ReclaimRoot) :
    ((push home c r).part r.tier).any (·.same r) =
      ((c.part r.tier).any (·.same r) || accepts home r) := by
  rw [part_push, beq_self_eq_true, Bool.true_and]
  cases haccepts : accepts home r with
  | false => simp
  | true =>
    rw [if_pos rfl, Bool.or_true, addNew]
    split
    next hknown => exact hknown
    next => simp [ReclaimRoot.same_self]

/-- **A shown path can be typed back.** Let the home directory, if there is one, be written in any
way but as the empty text, which names no directory.  An absolute path, however it is spelled, is
shown in a way that says the same path when it is read as a configured directory; so the catalog
with this one extra directory has the path among its directories of the user exactly if every user
has it or if it passes the check. -/
theorem forUser_shown (hhome : home ≠ some ⟨""⟩) (hp : p.isAbsolute = true) :
    (expandHome (home.getD ⟨""⟩) ⟨p.shown home⟩).components = p.components ∧
      ((forUser home [⟨p.shown home⟩]).user.any (·.same ⟨p, .user⟩) = true ↔
        (standard (home.getD ⟨""⟩)).user.any (·.same ⟨p, .user⟩) = true ∨
          Safety.isUserRoot home p = true) := by
  have hcomponents := components_expandHome_shown hhome hp
  refine ⟨hcomponents, ?_⟩
  generalize hq : expandHome (home.getD ⟨""⟩) ⟨p.shown home⟩ = q at hcomponents
  have hsame (roots : List ReclaimRoot) :
      roots.any (·.same ⟨p, .user⟩) = roots.any (·.same ⟨q, .user⟩) := by
    simp only [ReclaimRoot.same, Path.same, hcomponents]
  have habsolute : q.isAbsolute = p.isAbsolute := by
    obtain ⟨rest, hrest⟩ := Safety.exists_components_of_isAbsolute hp
    rw [hp, isAbsolute_of_components (hcomponents.trans hrest)]
  have hroot : accepts home ⟨q, .user⟩ = Safety.isUserRoot home p :=
    Safety.isUserRoot_congr habsolute hcomponents
  have hoffered := any_same_push home (standard (home.getD ⟨""⟩)) ⟨q, .user⟩
  rw [hroot] at hoffered
  rw [hsame, hsame, ← Bool.or_eq_true, forUser, List.foldl_cons, List.foldl_nil, hq]
  exact Bool.eq_iff_iff.mp hoffered

/-- A path with a name `~` of its own below a home directory that is spelled otherwise. -/
theorem forUser_shown_tilde :
    let home : Option Path := some ⟨"/Users//me/."⟩
    let p : Path := ⟨"/Users/me//~//./x/"⟩
    p.shown home = "~/~//./x" ∧
      (expandHome ⟨"/Users//me/."⟩ ⟨"~/~//./x"⟩).components = p.components ∧
      (forUser home [⟨"~/~//./x"⟩]).user.any (·.same ⟨p, .user⟩) = true := by
  have hback := @forUser_shown ⟨"/Users/me//~//./x/"⟩ (some ⟨"/Users//me/."⟩) (by decide)
    (by decide)
  have hshown : (Path.mk "/Users/me//~//./x/").shown (some ⟨"/Users//me/."⟩) = "~/~//./x" := by
    decide +kernel
  rw [hshown] at hback
  exact ⟨hshown, hback.1, hback.2.mpr (.inr (by decide +kernel))⟩

/-- Read from an empty text, what is shown would no longer be absolute. -/
example : (expandHome ⟨""⟩ ⟨(Path.mk "/a").shown (some ⟨""⟩)⟩).components = [.name "a"] := by
  decide +kernel

end Catalog

end Reclaim
