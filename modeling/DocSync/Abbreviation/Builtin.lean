import DocSync.Abbreviation.Table

/-!
The abbreviations that are there without a table of the user's own.
-/

namespace DocSync.AbbreviationTable

def builtin : AbbreviationTable := ofPairs
  [
    ("a", "α"), ("alpha", "α"), ("b", "β"), ("beta", "β"), ("g", "γ"), ("gamma", "γ"), ("G", "Γ"),
    ("Gamma", "Γ"), ("d", "δ"), ("delta", "δ"), ("D", "Δ"), ("Delta", "Δ"), ("e", "ε"),
    ("epsilon", "ε"), ("z", "ζ"), ("zeta", "ζ"), ("eta", "η"), ("th", "θ"), ("theta", "θ"),
    ("io", "ι"), ("iota", "ι"), ("k", "κ"), ("kappa", "κ"), ("l", "←"), ("lam", "λ"),
    ("lambda", "λ"), ("fun", "λ"), ("L", "Λ"), ("mu", "μ"), ("nu", "ν"), ("xi", "ξ"), ("pi", "π"),
    ("Pi", "Π"), ("rho", "ρ"), ("s", "σ"), ("sigma", "σ"), ("S", "Σ"), ("Sigma", "Σ"), ("t", "τ"),
    ("tau", "τ"), ("phi", "φ"), ("f", "φ"), ("chi", "χ"), ("psi", "ψ"), ("w", "ω"),
    ("omega", "ω"), ("O", "Ω"), ("Omega", "Ω"), ("r", "→"), ("to", "→"), ("->", "→"), ("<-", "←"),
    ("<->", "↔"), ("iff", "↔"), ("lr", "↔"), ("=>", "⇒"), ("u", "↑"), ("uparrow", "↑"),
    ("and", "∧"), ("or", "∨"), ("not", "¬"), ("neg", "¬"), ("ne", "≠"), ("neq", "≠"), ("le", "≤"),
    ("leq", "≤"), ("ge", "≥"), ("geq", "≥"), ("all", "∀"), ("forall", "∀"), ("ex", "∃"),
    ("exists", "∃"), ("in", "∈"), ("notin", "∉"), ("nin", "∉"), ("sub", "⊂"), ("subset", "⊂"),
    ("ss", "⊆"), ("subseteq", "⊆"), ("sup", "⊃"), ("supseteq", "⊇"), ("i", "∩"), ("cap", "∩"),
    ("inter", "∩"), ("un", "∪"), ("cup", "∪"), ("union", "∪"), ("empty", "∅"), ("emptyset", "∅"),
    ("x", "×"), ("times", "×"), ("o", "∘"), ("circ", "∘"), ("comp", "∘"), ("cdot", "⬝"),
    ("inf", "⊓"), ("glb", "⊓"), ("lub", "⊔"), ("top", "⊤"), ("bot", "⊥"), ("|-", "⊢"),
    ("vdash", "⊢"), ("equiv", "≃"), ("~", "∼"), ("~=", "≃"), ("==", "≡"), ("approx", "≈"),
    ("infty", "∞"), ("sum", "∑"), ("prod", "∏"), ("sqrt", "√"), ("N", "ℕ"), ("nat", "ℕ"),
    ("Z", "ℤ"), ("int", "ℤ"), ("Q", "ℚ"), ("rat", "ℚ"), ("R", "ℝ"), ("real", "ℝ"), ("C", "ℂ"),
    ("<", "⟨"), (">", "⟩"), ("langle", "⟨"), ("rangle", "⟩"), ("-1", "⁻¹"), ("inv", "⁻¹"),
    ("0", "₀"), ("1", "₁"), ("2", "₂"), ("3", "₃"), ("^2", "²"), ("^3", "³"), ("qed", "∎")]

end DocSync.AbbreviationTable
