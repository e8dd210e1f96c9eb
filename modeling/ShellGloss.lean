import ShellGloss.Json.Writer
import ShellGloss.Main
import ShellGloss.Proofs.AllOrNothing
import ShellGloss.Proofs.ColorTexts
import ShellGloss.Proofs.EmptyLeaves
import ShellGloss.Proofs.Omissions
import ShellGloss.Proofs.Overlays
import ShellGloss.Proofs.QueriedLeaves
import ShellGloss.Proofs.Surroundings
import ShellGloss.Proofs.Transparency
import ShellGloss.Proofs.Violations
