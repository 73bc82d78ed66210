import ProxGrad.Proofs.Composites.Combination
import ProxGrad.Proofs.Configuration.Document
import ProxGrad.Proofs.Configuration.ToOptions
import ProxGrad.Proofs.Dispatch.Copies
import ProxGrad.Proofs.Dispatch.Fallback
import ProxGrad.Proofs.Dispatch.Resolution
import ProxGrad.Proofs.Exact.GradientCheck
import ProxGrad.Proofs.Exact.PowerIteration
import ProxGrad.Proofs.FiniteArrays
import ProxGrad.Proofs.Fista.Count
import ProxGrad.Proofs.Fista.Denoising
import ProxGrad.Proofs.Fista.Feasibility
import ProxGrad.Proofs.Fista.Flattening
import ProxGrad.Proofs.Fista.Momentum
import ProxGrad.Proofs.Fista.Rate
import ProxGrad.Proofs.Fista.RestPoints
import ProxGrad.Proofs.Fista.Resumption
import ProxGrad.Proofs.Fista.RoundedScalars
import ProxGrad.Proofs.Misfit.Construction
import ProxGrad.Proofs.Options.Reachable
import ProxGrad.Session.Run
import ProxGrad.Version
