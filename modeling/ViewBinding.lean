import ViewBinding.Decimal.Reading
import ViewBinding.Engine.Run
import ViewBinding.Proofs.Outcome
import ViewBinding.World.Shown
import ViewBinding.Proofs.Aside
import ViewBinding.Proofs.Bookkeeping
import ViewBinding.Proofs.Building
import ViewBinding.Proofs.Listing
import ViewBinding.Proofs.Registration
import ViewBinding.Proofs.Everywhere
import ViewBinding.Proofs.Attention
import ViewBinding.Proofs.Repeating
import ViewBinding.Proofs.Templating
import ViewBinding.Proofs.Detaching
import ViewBinding.Proofs.Setback
import ViewBinding.Proofs.Vanishing
import ViewBinding.Proofs.Shielding
import ViewBinding.Proofs.Answering
import ViewBinding.Proofs.Lining
import ViewBinding.Proofs.Cascading
import ViewBinding.Proofs.Stopping
import ViewBinding.Proofs.Retrieving
import ViewBinding.Proofs.Replacing
import ViewBinding.Proofs.Surveying
import ViewBinding.Proofs.Naming
import ViewBinding.Proofs.Marking
import ViewBinding.Proofs.Interpolating
import ViewBinding.Proofs.Selecting
import ViewBinding.Proofs.Presenting
import ViewBinding.Proofs.Consulting
import ViewBinding.Proofs.Gathering
import ViewBinding.Proofs.Filling
import ViewBinding.Proofs.Untracked
import ViewBinding.Proofs.Withdrawing
import ViewBinding.Proofs.Fronting
import ViewBinding.Proofs.Authoring
