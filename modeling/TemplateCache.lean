import TemplateCache.Compiler
import TemplateCache.Config.Load
import TemplateCache.FileSystem.Edit
import TemplateCache.Hash.Json
import TemplateCache.Path.Join
import TemplateCache.Proofs.Compiler.Failure
import TemplateCache.Proofs.Concurrent.Converge
import TemplateCache.Proofs.Concurrent.Outliving
import TemplateCache.Proofs.Run.Cache
import TemplateCache.Proofs.Run.Sharing
import TemplateCache.Proofs.Run.Survival
import TemplateCache.Proofs.Path.Components
import TemplateCache.Proofs.Run.Repeating
import TemplateCache.Proofs.Run.Destination
import TemplateCache.Proofs.Artifact.Recognition
import TemplateCache.Proofs.Artifact.Length
import TemplateCache.Proofs.Options.SignFree
import TemplateCache.Proofs.Store.AllOrNothing
import TemplateCache.Proofs.Store.Expiry
import TemplateCache.Proofs.Options.Building
import TemplateCache.Proofs.Store.Listing
import TemplateCache.Proofs.Store.Establishing
import TemplateCache.Proofs.Config.Reading
import TemplateCache.Proofs.Config.Containment
import TemplateCache.Proofs.Config.Rebasing
import TemplateCache.Proofs.DefaultDir.Overlap
import TemplateCache.Proofs.Hash.Pieces
import TemplateCache.Proofs.Hash.Forms
